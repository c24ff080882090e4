import MarkupTidy.Proofs.Markup.Passage
import MarkupTidy.Proofs.Utility.ClassAnswers
import MarkupTidy.Proofs.Variable.Spelling
import MarkupTidy.Sheet.Basic
import MarkupTidy.Sheet.Reader

/-! # Generated names as identifiers

The name of a generated class is written behind a point as a selector, and its custom property into
a declaration, both without escapes.  There they have to be identifiers.  A reference is cleaned of
blanks and of some marks; every other mark of it stays, and ends the identifier.

* `Sheet.isIdentChar`, `Sheet.readClass?`: identifiers, and the class that a selector begins with.
* `ClassEntry.IsUsable`: a class whose selector is its name, and whose property is an identifier.
* `Variable.mem_cleanReference_iff`, `Variable.isIdentChar_cleanReference_iff`: the marks that stay
  in a bare name, and the references that become identifiers.
* `ClassRequest.isUsable_iff_isPlain`: the tokens for which usable classes are handed out. -/

namespace MarkupTidy

open MarkupTidy.Text MarkupTidy.Variable MarkupTidy.Markup

/-! ### Identifiers of stylesheets -/

namespace Sheet

/-- A character that an identifier holds without an escape: a letter, a digit, an underscore, a
hyphen, or any character beyond ASCII. -/
def isIdentChar (c : Char) : Bool :=
  isPropertyChar c || decide (0x80 ≤ c.toNat)

/-- A character that an identifier begins with, behind its hyphens. -/
def isIdentStart (c : Char) : Bool :=
  isPropertyStart c || decide (0x80 ≤ c.toNat)

/-- Whether an identifier begins here: it may have one hyphen in front of its first letter, and
anything behind two. -/
def beginsIdent : List Char → Bool
  | '-' :: '-' :: _ => true
  | '-' :: c :: _ => isIdentStart c
  | c :: _ => isIdentStart c
  | [] => false

/-- The class that a selector begins with, as far as its identifier goes, and what follows it. -/
def readClass? : List Char → Option (List Char × List Char)
  | '.' :: rest =>
    if beginsIdent rest then some (rest.takeWhile isIdentChar, rest.dropWhile isIdentChar) else none
  | _ => none

theorem beginsIdent_cons {c : Char} (h : isIdentStart c = true) (rest : List Char) :
    beginsIdent (c :: rest) = true := by
  have hhyphen : c ≠ '-' := by
    rintro rfl
    exact absurd h (by decide)
  unfold beginsIdent
  split <;> simp_all

/-- A name of identifier characters that begins with a letter is a class, and nothing follows it. -/
theorem readClass?_eq {name : List Char} (hstart : beginsIdent name = true)
    (h : ∀ c ∈ name, isIdentChar c = true) : readClass? ('.' :: name) = some (name, []) := by
  have htake := takeWhile_append_of_stops h stops_nil
  have hdrop := dropWhile_append_of_stops h stops_nil
  rw [List.append_nil] at htake hdrop
  rw [readClass?, if_pos hstart, htake, hdrop]

end Sheet

open MarkupTidy.Sheet

/-! ### Marks of a reference -/

namespace Variable

/-- A mark that no identifier holds, that is no blank, and that is not cleaned away. -/
structure IsStray (c : Char) : Prop where
  not_ident : isIdentChar c = false
  solid : isBlank c = false
  kept : c ∉ cleanedMarks

instance (c : Char) : Decidable (IsStray c) :=
  decidable_of_iff (isIdentChar c = false ∧ isBlank c = false ∧ c ∉ cleanedMarks)
    ⟨fun h => ⟨h.1, h.2.1, h.2.2⟩, fun h => ⟨h.not_ident, h.solid, h.kept⟩⟩

/-- The images of a run are small letters, or they lie beyond ASCII. -/
theorem identRange_of_mem_lowerRuns : ∀ r ∈ lowerRuns,
    r.last + r.distance ≤ 0x7A ∨ 0x80 ≤ r.first + r.distance := by
  decide +kernel

theorem isIdentChar_toLower : ∀ n < 0x80, (Char.ofNat n).toLower = Char.ofNat n ∨
    isIdentChar (Char.ofNat n) = true ∧ isIdentChar (Char.ofNat n).toLower = true := by
  decide +kernel

/-- Lower case brings in nothing but characters of identifiers. -/
theorem isIdentChar_of_mem_lowerChar {c d : Char} (h : d ∈ lowerChar c) :
    d = c ∨ isIdentChar d = true := by
  unfold lowerChar at h
  split at h
  · rename_i hascii
    have hlower := (isIdentChar_toLower c.toNat hascii).imp_right And.right
    rw [Char.ofNat_toNat] at hlower
    rwa [List.mem_singleton.1 h]
  · split at h
    · have himages : ∀ d ∈ ['i', Char.ofNat 0x307], isIdentChar d = true := by decide
      exact .inr (himages d h)
    · obtain rfl := List.mem_singleton.1 h
      unfold mapByRuns
      split
      · rename_i r hfind
        have hr := List.mem_of_find?_eq_some hfind
        have hcovers : r.covers c.toNat = true := by simpa using List.find?_some hfind
        have hhigh := isHigh_of_mem_lowerRuns r hr
        have htoNat := hhigh.toNat_image hcovers
        have hlow := hhigh.1
        simp only [CaseRun.covers, Bool.and_eq_true, decide_eq_true_eq] at hcovers
        right
        obtain hsmall | hbeyond := identRange_of_mem_lowerRuns r hr
        · have hletter : ∀ n < 0x7B, 0x61 ≤ n → isIdentChar (Char.ofNat n) = true := by decide
          exact hletter _ (by omega) (by omega)
        · rw [isIdentChar, htoNat, Bool.or_eq_true, decide_eq_true_eq]
          exact .inr (by omega)
      · exact .inl rfl

namespace IsStray

variable {m : Char} (h : IsStray m)
include h

theorem toNat_lt : m.toNat < 0x80 := by
  have hident := h.not_ident
  rw [isIdentChar, Bool.or_eq_false_iff, decide_eq_false_iff_not] at hident
  omega

theorem ne_of_isIdentChar {c : Char} (hc : isIdentChar c = true) : m ≠ c := by
  rintro rfl
  exact Bool.noConfusion (hc.symm.trans h.not_ident)

/-- A stray mark has no case. -/
theorem isLower : IsLower m := by
  have hlower := (isLower_of_ascii m.toNat h.toNat_lt).1
  have hsame := (isIdentChar_toLower m.toNat h.toNat_lt).resolve_right fun hident => by
    rw [Char.ofNat_toNat, h.not_ident] at hident
    exact Bool.noConfusion hident.1
  rwa [hsame, Char.ofNat_toNat] at hlower

theorem mem_lowercase_iff {cs : List Char} : m ∈ lowercase cs ↔ m ∈ cs := by
  refine ⟨fun hmem => ?_, mem_lowercase_of_mem h.isLower⟩
  obtain ⟨isFinal, heq⟩ | ⟨c, hc, hm⟩ := of_mem_lowercase hmem
  · have hsigma : ∀ b, isIdentChar (lowerSigma b) = true := by decide
    exact absurd heq (h.ne_of_isIdentChar (hsigma isFinal))
  · obtain rfl | hident := isIdentChar_of_mem_lowerChar hm
    · exact hc
    · exact absurd rfl (h.ne_of_isIdentChar hident)

theorem mem_hyphenate_iff {cs : List Char} : m ∈ hyphenate cs ↔ m ∈ cs :=
  ⟨fun hmem => ((mem_hyphenate hmem).resolve_left (h.ne_of_isIdentChar (by decide))).1,
    mem_hyphenate_of_mem h.solid⟩

theorem mem_trim_iff {cs : List Char} : m ∈ trim cs ↔ m ∈ cs :=
  ⟨mem_of_mem_trim, fun hmem => mem_trim_of_mem hmem h.solid⟩

theorem mem_flatMap_referenceChar_iff {cs : List Char} : m ∈ cs.flatMap referenceChar ↔ m ∈ cs := by
  rw [List.mem_flatMap]
  constructor
  · rintro ⟨c, hc, hm⟩
    obtain ⟨-, -, rfl | hstands⟩ := mem_referenceChar hm
    · exact hc
    · have hident : ∀ c ∈ ['_', '-', 'd', 'o', 't'], isIdentChar c = true := by decide
      exact absurd rfl (h.ne_of_isIdentChar (hident m hstands))
  · exact fun hmem => ⟨m, hmem, by rw [referenceChar_of_not_mem h.kept]; exact List.mem_cons_self⟩

/-- Two hyphens at the front of a text are no stray marks. -/
theorem mem_afterHyphens_iff {cs : List Char} :
    m ∈ (afterText? ['-', '-'] cs).getD cs ↔ m ∈ cs := by
  cases hafter : afterText? ['-', '-'] cs with
  | none => rfl
  | some rest =>
    have hhyphen : m ≠ '-' := h.ne_of_isIdentChar (by decide)
    rw [afterText?_eq_some.1 hafter]
    simp [hhyphen]

end IsStray

/-- A stray mark of a reference stays in the bare name, and none is brought in. -/
theorem mem_cleanReference_iff {m : Char} (h : IsStray m) {reference : List Char} :
    m ∈ cleanReference reference ↔ m ∈ reference := by
  unfold cleanReference
  dsimp only
  rw [h.mem_lowercase_iff, h.mem_hyphenate_iff, h.mem_trim_iff, h.mem_flatMap_referenceChar_iff,
    h.mem_afterHyphens_iff, h.mem_trim_iff]

/-- A reference becomes an identifier exactly if it has no stray marks. -/
theorem isIdentChar_cleanReference_iff {reference : List Char} :
    (∀ c ∈ cleanReference reference, isIdentChar c = true) ↔ ∀ c ∈ reference, ¬ IsStray c := by
  constructor
  · intro hident c hc hstray
    have hstays := hident c ((mem_cleanReference_iff hstray).2 hc)
    exact Bool.noConfusion (hstays.symm.trans hstray.not_ident)
  · intro hplain c hc
    refine Decidable.byContradiction fun hident => ?_
    have hbare := isBare_cleanReference reference
    have hstray : IsStray c := ⟨Bool.eq_false_iff.2 hident, hbare.solid c hc, hbare.plain c hc⟩
    exact hplain c ((mem_cleanReference_iff hstray).1 hc) hstray

end Variable

/-! ### Classes that can be used -/

/-- The custom property that a class is bound to is an identifier, if it is bound to one. -/
def ClassEntry.BindsIdent (e : ClassEntry) : Prop :=
  ∀ property, e.customProperty? = some property → ∀ c ∈ property.toList, isIdentChar c = true

/-- A class that a stylesheet can tell of without escapes. -/
structure ClassEntry.IsUsable (e : ClassEntry) : Prop where
  name : ∀ c ∈ e.name.toList, isIdentChar c = true
  binds : e.BindsIdent
  /-- The rule of the class selects the elements with this class: its selector is read as the name,
  all of it. -/
  selects : readClass? (classRule e).selector.toList = some (e.name.toList, [])

namespace ClassTarget

/-- What names begin with is an identifier. -/
theorem isIdent_of_mem_bases : ∀ p ∈ bases,
    p.1.toList.head?.any isIdentStart = true ∧ ∀ c ∈ p.1.toList, isIdentChar c = true := by
  decide +kernel

variable {t : ClassTarget} {e : ClassEntry}

theorem isIdentChar_className_iff (h : t.IsKnown) :
    (∀ c ∈ t.className.toList, isIdentChar c = true) ↔ ∀ c ∈ t.label, isIdentChar c = true := by
  have hbase := (isIdent_of_mem_bases _ h.mem_bases).2
  rw [toList_className, List.forall_mem_append, List.forall_mem_cons]
  exact ⟨fun hall => hall.2.2, fun hlabel => ⟨hbase, by decide, hlabel⟩⟩

/-- A class with the name of a target is usable if the name is an identifier, and the property too. -/
theorem isUsable_iff (h : t.IsKnown) (hname : e.name = t.className) :
    e.IsUsable ↔ (∀ c ∈ t.label, isIdentChar c = true) ∧ e.BindsIdent := by
  rw [← isIdentChar_className_iff h, ← hname]
  refine ⟨fun he => ⟨he.name, he.binds⟩, fun ⟨hident, hbinds⟩ => ⟨hident, hbinds, ?_⟩⟩
  have hselector : (classRule e).selector.toList = '.' :: e.name.toList := by
    simp [classRule]
  rw [hselector]
  refine readClass?_eq ?_ hident
  have hstart := (isIdent_of_mem_bases _ h.mem_bases).1
  rw [hname, toList_className]
  cases hbase : t.base.toList with
  | nil => exact absurd hstart (by simp [hbase])
  | cons c rest => exact beginsIdent_cons (by simpa [hbase] using hstart) _

/-- What a target is bound to is an identifier if its name is. -/
theorem bindsIdent (hmeaning : e.meaning = t.meaning)
    (hlabel : ∀ c ∈ t.label, isIdentChar c = true) : e.BindsIdent := by
  intro property hproperty
  have hbound : e.customProperty? = t.meaning.customProperty? :=
    congrArg ClassMeaning.customProperty? hmeaning
  rw [hbound] at hproperty
  cases t with
  | bound base properties name =>
    obtain rfl := Option.some.inj hproperty
    rw [String.toList_ofList]
    exact List.forall_mem_cons.2 ⟨by decide, List.forall_mem_cons.2 ⟨by decide, hlabel⟩⟩
  | widths ws => exact absurd hproperty (by simp [meaning])

/-- Widths are written in an identifier. -/
theorem isIdentChar_of_mem_widthName {w : List Char} (hw : BorderShorthand.isWidth w = true)
    {c : Char} (hc : c ∈ widthName w) : isIdentChar c = true := by
  obtain ⟨d, hd, hc⟩ := List.mem_flatMap.1 hc
  have hd : d ∈ w := (mem_of_mem_replaceText hd).resolve_left List.not_mem_nil
  split at hc
  · have hdot : ∀ c ∈ ['d', 'o', 't'], isIdentChar c = true := by decide
    exact hdot c hc
  · rename_i hpoint
    obtain rfl := List.mem_singleton.1 hc
    obtain h | rfl | rfl := isWidthChar_of_mem hw hd
    · simp only [BorderShorthand.isWidthChar, Bool.or_eq_true, beq_iff_eq, hpoint, or_false] at h
      simp [isIdentChar, isPropertyChar, Char.isAlphanum, h]
    · decide
    · decide

end ClassTarget

/-! ### Tokens -/

namespace ClassRequest

/-- The reference in the token of a request; the shorthand of a border has none. -/
def reference : ClassRequest → List Char
  | placeholder token => (Placeholder.read? token.toList).elim [] Placeholder.reference
  | shorthand _ => []

/-- A request whose reference has no stray marks. -/
def IsPlain (r : ClassRequest) : Prop :=
  ∀ c ∈ r.reference, ¬ IsStray c

instance (r : ClassRequest) : Decidable r.IsPlain :=
  inferInstanceAs (Decidable (∀ c ∈ r.reference, ¬ IsStray c))

variable {design : VariableTable} {t : ClassTable} {r : ClassRequest} {e : ClassEntry}

/-- The target of a request has an identifier for its name exactly if the request is plain. -/
theorem isIdentChar_label_iff {target : ClassTarget} (h : r.target? design = some target)
    (hknown : target.IsKnown) : (∀ c ∈ target.label, isIdentChar c = true) ↔ r.IsPlain := by
  cases r with
  | placeholder token =>
    obtain ⟨p, hp, htarget⟩ := Option.bind_eq_some_iff.1 h
    unfold Placeholder.classTarget? at htarget
    split at htarget
    · obtain ⟨binding, -, rfl⟩ := Option.map_eq_some_iff.1 htarget
      rw [IsPlain, reference, hp]
      exact isIdentChar_cleanReference_iff
    · exact absurd htarget (by simp)
  | shorthand token =>
    obtain ⟨ws, -, rfl⟩ := Option.map_eq_some_iff.1 h
    refine iff_of_true (fun c hc => ?_) (List.forall_mem_nil _)
    obtain rfl | ⟨part, hpart, hc⟩ := mem_intercalate hc
    · decide
    · obtain ⟨w, hw, rfl⟩ := List.mem_map.1 hpart
      exact ClassTarget.isIdentChar_of_mem_widthName (hknown.2 w hw) hc

/-- A class that is handed out is usable exactly if the reference of its token has no stray marks,
and if the class that has stood under its name before, if any, is bound to an identifier.  Once all
classes of the table have been made for tokens, the token alone decides. -/
theorem isUsable_iff_isPlain (h : (r.serve design t).1 = some (.synthesized e)) :
    (e.IsUsable ↔ r.IsPlain ∧ ∀ first, t.get? e.name = some first → first.BindsIdent) ∧
      ∀ rs, t = tableFrom design .empty rs → (e.IsUsable ↔ r.IsPlain) := by
  obtain ⟨wanted, hresolution, hserve⟩ | ⟨hnone, hserve⟩ := r.serve_cases design t
  · rw [hserve] at h
    obtain rfl : t.kept wanted = e := by simpa using h
    have hwanted : r.entryFor? design = some wanted := by
      rw [entryFor?_eq_bind, hresolution]
      rfl
    obtain ⟨target, htarget, hknown, hname, hmeaning⟩ := exists_target_of_entryFor? hwanted
    have hkept : (t.kept wanted).name = target.className := (t.name_kept wanted).trans hname
    have husable := ClassTarget.isUsable_iff hknown hkept
    have hplain := isIdentChar_label_iff htarget hknown
    rw [husable, hplain]
    refine ⟨and_congr_right fun hr => ?_, fun rs hrs => ?_⟩
    · rw [t.name_kept, ClassTable.kept]
      cases t.get? wanted.name with
      | none =>
        exact iff_of_true (ClassTarget.bindsIdent hmeaning (hplain.2 hr)) fun _ h => absurd h (by simp)
      | some first => simp
    · refine and_iff_left_of_imp fun hr => ?_
      obtain ⟨r', hr'⟩ : ∃ r' : ClassRequest, r'.entryFor? design = some (t.kept wanted) := by
        rw [ClassTable.kept]
        cases hfirst : t.get? wanted.name with
        | none => exact ⟨r, hwanted⟩
        | some first =>
          have hmem := ClassTable.mem_of_get? hfirst
          rw [hrs] at hmem
          obtain hmem | ⟨r', -, hr'⟩ := exists_request_of_mem_tableFrom hmem
          · exact absurd hmem List.not_mem_nil
          · exact ⟨r', hr'⟩
      -- the request that has made the class has another target, but the same name
      obtain ⟨target', -, hknown', hname', hmeaning'⟩ := exists_target_of_entryFor? hr'
      refine ClassTarget.bindsIdent hmeaning' ?_
      rw [← ClassTarget.isIdentChar_className_iff hknown', ← hname', hkept,
        ClassTarget.isIdentChar_className_iff hknown]
      exact hplain.2 hr
  · rw [hserve] at h
    exact absurd h (hnone e)

/-- A slash of a reference is written as a hyphen. -/
theorem slash_isUsable : ∃ e,
    ((placeholder "p-[var(--margin\\/r,32px)]").serve .empty .empty).1 = some (.synthesized e) ∧
      e.IsUsable := by
  have hserve : ((placeholder "p-[var(--margin\\/r,32px)]").serve .empty .empty).1 = some (.synthesized
      ⟨"p-margin-r", ["padding"], some "--margin-r", some "32px", none⟩) := by
    decide
  exact ⟨_, hserve, ((isUsable_iff_isPlain hserve).2 [] rfl).2 (by decide)⟩

/-- A percent sign of a reference ends the selector. -/
theorem percent_not_isUsable : ∃ e,
    ((placeholder "p-[var(--spacing\\/50%,8px)]").serve .empty .empty).1 = some (.synthesized e) ∧
      ¬ e.IsUsable :=
  ⟨⟨"p-spacing-50%", ["padding"], some "--spacing-50%", some "8px", none⟩, by decide,
    fun h => absurd (h.name '%' (by decide)) (by decide)⟩

end ClassRequest

end MarkupTidy
