import MarkupTidy.Proofs.Text.Utf8
import MarkupTidy.Url.Form

/-! # Form encoding, and back

* `isFormChar_of_mem`: the characters of a form encoding.
* `formDecode_formEncode`: a text comes back from its form encoding.
* `formDecode_eq_nil_iff`: only the empty text is the encoding of one. -/

namespace MarkupTidy.Url

open MarkupTidy.Text

/-! ### The characters of a form encoding -/

/-- A character of a form encoding: one that stands for itself, a plus sign, or the mark of an
escape. -/
def isFormChar (c : Char) : Bool :=
  isUnreserved c || c = '+' || c = '%'

theorem isUnreserved_hexCapital : ∀ n < 0x10, isUnreserved (hexCapital n) = true := by
  decide

theorem not_mem_escapeByte {b : Nat} (h : b < 0x100) : '+' ∉ escapeByte b := by
  have hdigit : ∀ n < 0x10, '+' ≠ hexCapital n := by decide
  simp [escapeByte, hdigit (b / 16) (by omega), hdigit (b % 16) (by omega)]

theorem lt_of_mem_utf8Bytes {cs : List Char} {b : Nat} (h : b ∈ utf8Bytes cs) : b < 0x100 := by
  obtain ⟨c, -, hb⟩ := List.mem_flatMap.1 h
  obtain ⟨byte, -, rfl⟩ := List.mem_map.1 hb
  exact byte.toNat_lt

theorem isFormChar_of_mem {cs : List Char} {c : Char} (h : c ∈ formEncode cs) :
    isFormChar c = true := by
  obtain ⟨d, -, hc⟩ := List.mem_flatMap.1 h
  split at hc
  · rename_i hd
    rw [List.mem_singleton.1 hc, isFormChar, hd]
    rfl
  · split at hc
    · rw [List.mem_singleton.1 hc]
      decide
    · obtain ⟨b, hb, hc⟩ := List.mem_flatMap.1 hc
      have hbyte := lt_of_mem_utf8Bytes hb
      simp only [escapeByte, List.mem_cons, List.not_mem_nil, or_false] at hc
      obtain rfl | rfl | rfl := hc
      · decide
      · rw [isFormChar, isUnreserved_hexCapital _ (by omega)]
        rfl
      · rw [isFormChar, isUnreserved_hexCapital _ (by omega)]
        rfl

theorem toNat_lt_of_isUnreserved {c : Char} (h : isUnreserved c = true) : c.toNat < 0x80 := by
  simp only [isUnreserved, Bool.or_eq_true, decide_eq_true_eq] at h
  obtain (((h | rfl) | rfl) | rfl) | rfl := h
  · exact toNat_lt_of_isAlphanum h
  all_goals decide

theorem toNat_lt_of_isFormChar {c : Char} (h : isFormChar c = true) : c.toNat < 0x80 := by
  simp only [isFormChar, Bool.or_eq_true, decide_eq_true_eq] at h
  obtain (h | rfl) | rfl := h
  · exact toNat_lt_of_isUnreserved h
  · decide
  · decide

/-! ### Escapes -/

theorem unescapeBytes_cons {c : Char} (h : c ≠ '%') (rest : List Char) :
    unescapeBytes (c :: rest) = c.toNat :: unescapeBytes rest := by
  rw [unescapeBytes]
  intro _ _ _ heq
  exact absurd heq h

theorem unescapeBytes_escapeByte {b : Nat} (h : b < 0x100) (rest : List Char) :
    unescapeBytes (escapeByte b ++ rest) = b :: unescapeBytes rest := by
  have hdigit : ∀ n < 0x10, isHexDigit (hexCapital n) = true ∧ hexDigitValue (hexCapital n) = n := by
    decide
  obtain ⟨hfirst, hfirstValue⟩ := hdigit (b / 16) (by omega)
  obtain ⟨hsecond, hsecondValue⟩ := hdigit (b % 16) (by omega)
  rw [escapeByte, List.cons_append, List.cons_append, List.cons_append, List.nil_append,
    unescapeBytes, hfirst, hsecond, Bool.and_self, if_pos rfl, hfirstValue, hsecondValue,
    Nat.div_add_mod']

theorem unescapeBytes_flatMap {bytes : List Nat} (h : ∀ b ∈ bytes, b < 0x100) (rest : List Char) :
    unescapeBytes (bytes.flatMap escapeByte ++ rest) = bytes ++ unescapeBytes rest := by
  induction bytes with
  | nil => rfl
  | cons b bytes ih =>
    obtain ⟨hb, hbytes⟩ := List.forall_mem_cons.1 h
    rw [List.flatMap_cons, List.append_assoc, unescapeBytes_escapeByte hb, ih hbytes,
      List.cons_append]

/-! ### And back -/

/-- Plus signs become blanks before escapes are undone. -/
def blankForPlus (c : Char) : Char :=
  if c = '+' then ' ' else c

theorem map_blankForPlus_of_not_mem {cs : List Char} (h : '+' ∉ cs) : cs.map blankForPlus = cs := by
  have hkept : cs.map blankForPlus = cs.map id := by
    refine List.map_congr_left fun c hc => if_neg ?_
    rintro rfl
    exact h hc
  rw [hkept, List.map_id]

theorem formDecode_eq {cs : List Char} (h : ∀ c ∈ cs, c.toNat < 0x80) :
    formDecode cs = decodeUtf8 (unescapeBytes (cs.map blankForPlus)) := by
  have hunescape (ds : List Char) (hds : ∀ d ∈ ds, d.toNat < 0x80) (ascii : List Char) :
      unescapeFrom ascii ds = decodeUtf8 (unescapeBytes (ascii.reverse ++ ds)) := by
    induction ds generalizing ascii with
    | nil => rw [unescapeFrom, List.append_nil]
    | cons d ds ih =>
      obtain ⟨hd, hds⟩ := List.forall_mem_cons.1 hds
      rw [unescapeFrom, if_pos hd, ih hds, List.reverse_cons, List.append_assoc,
        List.singleton_append]
  refine hunescape _ (List.forall_mem_map.2 fun c hc => ?_) []
  split
  · decide
  · exact h c hc

theorem formEncode_cons (c : Char) (cs : List Char) : formEncode (c :: cs)
    = (if isUnreserved c then [c] else if c = ' ' then ['+'] else (utf8Bytes [c]).flatMap escapeByte)
      ++ formEncode cs :=
  rfl

/-- The bytes of a text are in its form encoding. -/
theorem unescapeBytes_formEncode (cs : List Char) :
    unescapeBytes ((formEncode cs).map blankForPlus) = utf8Bytes cs := by
  induction cs with
  | nil => rfl
  | cons c cs ih =>
    rw [formEncode_cons, List.map_append, utf8Bytes_cons c cs, ← ih]
    split
    · rename_i hc
      have hplus : c ≠ '+' := by rintro rfl; exact absurd hc (by decide)
      have hescape : c ≠ '%' := by rintro rfl; exact absurd hc (by decide)
      rw [utf8Bytes_singleton, if_pos (toNat_lt_of_isUnreserved hc), List.map_singleton, blankForPlus,
        if_neg hplus, List.singleton_append, unescapeBytes_cons hescape]
      rfl
    · split
      · rename_i hc
        rw [hc, utf8Bytes_singleton, if_pos (by decide), List.map_singleton, blankForPlus, if_pos rfl,
          List.singleton_append, unescapeBytes_cons (by decide)]
        rfl
      · have hbytes : ∀ b ∈ utf8Bytes [c], b < 0x100 := fun b => lt_of_mem_utf8Bytes
        have hplus : '+' ∉ (utf8Bytes [c]).flatMap escapeByte := by
          intro hmem
          obtain ⟨b, hb, hmem⟩ := List.mem_flatMap.1 hmem
          exact not_mem_escapeByte (hbytes b hb) hmem
        rw [map_blankForPlus_of_not_mem hplus, unescapeBytes_flatMap hbytes]

/-- A text comes back from its form encoding. -/
theorem formDecode_formEncode (cs : List Char) : formDecode (formEncode cs) = cs := by
  rw [formDecode_eq fun c hc => toNat_lt_of_isFormChar (isFormChar_of_mem hc),
    unescapeBytes_formEncode, decodeUtf8_utf8Bytes]

theorem unescapeBytes_ne_nil (c : Char) (rest : List Char) : unescapeBytes (c :: rest) ≠ [] := by
  unfold unescapeBytes
  split
  · split <;> exact List.cons_ne_nil _ _
  · exact List.cons_ne_nil _ _
  · rename_i hnil
    exact absurd hnil (List.cons_ne_nil c rest)

/-- Nothing that is encoded is lost altogether. -/
theorem formDecode_eq_nil_iff {cs : List Char} : formDecode cs = [] ↔ cs = [] := by
  have hfrom (ascii ds : List Char) : unescapeFrom ascii ds = [] → ascii = [] ∧ ds = [] := by
    induction ds generalizing ascii with
    | nil =>
      intro h
      rw [unescapeFrom, decodeUtf8_eq_nil_iff] at h
      refine ⟨List.reverse_eq_nil_iff.1 ?_, rfl⟩
      cases hreverse : ascii.reverse with
      | nil => rfl
      | cons c rest => exact absurd (hreverse ▸ h) (unescapeBytes_ne_nil c rest)
    | cons d ds ih =>
      intro h
      rw [unescapeFrom] at h
      split at h
      · exact absurd (ih _ h).1 (List.cons_ne_nil d ascii)
      · exact absurd h (by simp)
  constructor
  · intro h
    exact List.map_eq_nil_iff.1 (hfrom _ _ h).2
  · rintro rfl
    decide +kernel

end MarkupTidy.Url
