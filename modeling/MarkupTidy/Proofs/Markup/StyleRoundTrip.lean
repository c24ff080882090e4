import MarkupTidy.Markup.Printer
import MarkupTidy.Proofs.Markup.StyleParts
import MarkupTidy.Proofs.Markup.Written
import MarkupTidy.Proofs.Number.DecimalText
import MarkupTidy.Proofs.Number.Written
import MarkupTidy.Proofs.OrderedMap
import MarkupTidy.Proofs.Variable.Reference

/-! # Reading styles that have been written

A style that was read is written as an object literal that is read again.  The two conventions differ where
a text is escaped, since the reader keeps the escapes, and where a number has an exponent, since the reader
takes it for source code.

* `rereadKey_eq_iff`: the names that are read back.
* `StyleValue.same_read_print_iff`: the values that are read back.
* `read?_print`: what is written is read entry by entry.
* `same_reread_iff`: a style is read back exactly if its names and values are. -/

namespace MarkupTidy

open MarkupTidy.Text MarkupTidy.Markup

namespace Style

/-! ### Names -/

/-- The name that is read from a name as it is written. -/
def rereadKey (key : String) : String :=
  if isIdentifier (dropFinalNewline key.toList) then String.ofList (dropFinalNewline key.toList)
  else String.ofList (key.toList.flatMap (Json.writeChar true))

/-- A name that is an identifier, or a text in which nothing is escaped. -/
def IsStableKey (key : String) : Prop :=
  isIdentifier key.toList = true ∨ Json.IsUnescaped true key.toList

instance (key : String) : Decidable (IsStableKey key) :=
  inferInstanceAs (Decidable (_ ∨ _))

theorem forall_of_isIdentifier {P : Char → Prop} (hstart : ∀ c, isNameStart c = true → P c)
    (hchar : ∀ c, isIdentifierChar c = true → P c) {cs : List Char} (h : isIdentifier cs = true) :
    ∀ c ∈ cs, P c := by
  cases cs with
  | nil => exact List.forall_mem_nil _
  | cons c rest =>
    simp only [isIdentifier, Bool.and_eq_true, List.all_eq_true] at h
    exact List.forall_mem_cons.2 ⟨hstart c h.1, fun d hd => hchar d (h.2 d hd)⟩

theorem isSolid_of_isIdentifier {cs : List Char} (h : isIdentifier cs = true) : IsSolid cs := by
  refine forall_of_isIdentifier (fun c => isBlank_of_isNameStart) (fun c hc => ?_) h
  rw [isIdentifierChar, Bool.or_eq_true, beq_iff_eq] at hc
  obtain hc | rfl := hc
  · exact isBlank_of_isWordChar hc
  · decide

/-- The characters that the syntax of an object literal is made of. -/
def syntaxChars : List Char :=
  delimiters ++ [',', ':']

theorem not_mem_syntaxChars_of_isIdentifier {cs : List Char} (h : isIdentifier cs = true) :
    ∀ c ∈ cs, c ∉ syntaxChars := by
  have hstart : ∀ c ∈ syntaxChars, isNameStart c = false := by decide
  have hchar : ∀ c ∈ syntaxChars, isIdentifierChar c = false := by decide
  refine forall_of_isIdentifier (fun c hc hmem => ?_) (fun c hc hmem => ?_) h
  · exact absurd (hc.symm.trans (hstart c hmem)) (by decide)
  · exact absurd (hc.symm.trans (hchar c hmem)) (by decide)

theorem isWhole_of_not_mem_syntaxChars {separator : Char} (hseparator : separator ∈ [',', ':'])
    {cs : List Char} (h : ∀ c ∈ cs, c ∉ syntaxChars) : IsWhole separator cs := by
  refine isWhole_of_isPlain fun c hc =>
    ⟨isPlain_of_not_mem fun hmem => h c hc (List.mem_append_left _ hmem), ?_⟩
  rintro rfl
  exact h c hc (List.mem_append_right _ hseparator)

/-- A name as it is written is one part. -/
theorem isWhole_printKey {separator : Char} (hseparator : separator ∈ [',', ':']) (key : String) :
    IsWhole separator (printKey key) := by
  unfold printKey
  split
  · rename_i hidentifier
    refine isWhole_of_not_mem_syntaxChars hseparator fun c hc => ?_
    obtain hc | rfl := mem_dropFinalNewline hc
    · exact not_mem_syntaxChars_of_isIdentifier hidentifier c hc
    · decide
  · exact isWhole_quoted hseparator true _

theorem unquote?_quoted (asciiOnly : Bool) (cs : List Char) :
    unquote? (Json.quoted asciiOnly cs) = some ('"', cs.flatMap (Json.writeChar asciiOnly)) := by
  simp [unquote?, Json.quoted]

theorem trim_quoted {l r : List Char} (hl : ∀ c ∈ l, isBlank c = true) (hr : ∀ c ∈ r, isBlank c = true)
    (asciiOnly : Bool) (cs : List Char) :
    trim (l ++ (Json.quoted asciiOnly cs ++ r)) = Json.quoted asciiOnly cs := by
  have hquote : isBlank '"' = false := by decide
  rw [trim_append_left hl, trim_append_right hr]
  exact trim_of_solid_ends ⟨'"', _, rfl, hquote⟩
    ⟨'"' :: cs.flatMap (Json.writeChar asciiOnly), '"', rfl, hquote⟩

theorem unquote?_of_not_mem_syntaxChars {cs : List Char} (h : ∀ c ∈ cs, c ∉ syntaxChars) :
    unquote? cs = none := by
  cases cs with
  | nil => rfl
  | cons c rest =>
    have hc := h c List.mem_cons_self
    have hquote : c ≠ '"' := by
      rintro rfl
      exact hc (by decide)
    have happostrophe : c ≠ '\'' := by
      rintro rfl
      exact hc (by decide)
    simp [unquote?, hquote, happostrophe]

/-- A name is read from what is written for it. -/
theorem readKey?_printKey {l : List Char} (hl : ∀ c ∈ l, isBlank c = true) (key : String) :
    readKey? (l ++ printKey key) = some (rereadKey key) := by
  have hblank : isBlank '\n' = true := by decide
  unfold readKey? rereadKey printKey
  split
  · rename_i hidentifier
    have hsolid := isSolid_of_isIdentifier hidentifier
    -- a line feed at the end of an identifier is written, and taken for a blank
    have htrim : trim (l ++ key.toList) = dropFinalNewline key.toList := by
      rw [trim_append_left hl]
      obtain heq | heq := eq_dropFinalNewline_or key.toList
      · conv => lhs; rw [heq]
        exact trim_of_isSolid hsolid
      · conv => lhs; rw [heq]
        rw [trim_append_right (List.forall_mem_singleton.2 hblank)]
        exact trim_of_isSolid hsolid
    rw [htrim]
    dsimp only
    rw [unquote?_of_not_mem_syntaxChars (not_mem_syntaxChars_of_isIdentifier hidentifier)]
    exact if_pos hidentifier
  · have htrim := trim_quoted hl (List.forall_mem_nil _) true key.toList
    rw [List.append_nil] at htrim
    rw [htrim]
    dsimp only
    rw [unquote?_quoted]

theorem newline_not_mem_of_isStableKey {key : String} (h : IsStableKey key) : '\n' ∉ key.toList := by
  intro hmem
  obtain h | h := h
  · refine forall_of_isIdentifier (P := (· ≠ '\n')) ?_ ?_ h _ hmem rfl
    · rintro _ hstart rfl
      exact absurd hstart (by decide)
    · rintro _ hchar rfl
      exact absurd hchar (by decide)
  · exact absurd (h _ hmem).1 (by decide)

/-- The names that are read back. -/
theorem rereadKey_eq_iff {key : String} : rereadKey key = key ↔ IsStableKey key := by
  have hofList {cs : List Char} : String.ofList cs = key ↔ cs = key.toList := by
    rw [← String.toList_inj, String.toList_ofList]
  constructor
  · intro h
    unfold rereadKey at h
    split at h
    · rename_i hidentifier
      rw [hofList] at h
      exact .inl (h ▸ hidentifier)
    · exact .inr (Json.flatMap_writeChar_eq_iff.1 (hofList.1 h))
  · intro h
    have hdrop := dropFinalNewline_of_not_mem (newline_not_mem_of_isStableKey h)
    unfold rereadKey
    rw [hdrop]
    split
    · exact hofList.2 rfl
    · rename_i hidentifier
      refine hofList.2 ?_
      exact Json.flatMap_writeChar_eq_iff.2 (h.resolve_left hidentifier)

end Style

/-! ### Values -/

namespace StyleValue

/-- The value with a whole number in place of a number without a fractional part. -/
def whole : StyleValue → StyleValue
  | .float value => if value.isIntegral then .int value.truncate else .float value
  | value => value

/-- Values that are equal, a whole number to a number without a fractional part. -/
def Same (value value' : StyleValue) : Prop :=
  value.whole = value'.whole

/-- A value that is written in the syntax that it is read from: a text in which nothing is escaped, a
number that needs no exponent, or source code. -/
def IsStable : StyleValue → Prop
  | .text value => Json.IsUnescaped false value.toList
  | .int _ => True
  | .float value => value.isIntegral = true ∨ Number.isPlainNumber value.shortest = true
  | .truth _ => False
  | .raw _ => True

instance : (value : StyleValue) → Decidable value.IsStable
  | .text value => inferInstanceAs (Decidable (Json.IsUnescaped false value.toList))
  | .int _ => isTrue trivial
  | .float _ => inferInstanceAs (Decidable (_ ∨ _))
  | .truth _ => isFalse id
  | .raw _ => isTrue trivial

theorem read_trim (cs : List Char) : read (trim cs) = read cs := by
  unfold read
  rw [trim_trim]

theorem read_append_blanks {l r : List Char} (hl : ∀ c ∈ l, isBlank c = true)
    (hr : ∀ c ∈ r, isBlank c = true) (cs : List Char) : read (l ++ (cs ++ r)) = read cs := by
  rw [← read_trim, trim_append_left hl, trim_append_right hr, read_trim]

/-- A quoted text is read as a text unless there is a quote in it. -/
theorem read_quoted (cs : List Char) : read (Json.quoted false cs) =
    if '"' ∈ cs.flatMap (Json.writeChar false) then .raw (String.ofList (Json.quoted false cs))
    else .text (String.ofList (cs.flatMap (Json.writeChar false))) := by
  have htrim := Style.trim_quoted (List.forall_mem_nil _) (List.forall_mem_nil _) false cs
  rw [List.nil_append, List.append_nil] at htrim
  have hplain : Number.isPlainNumber (Json.quoted false cs) = false := by
    rw [Bool.eq_false_iff]
    intro hplain
    have hquote := Number.mem_of_isPlainNumber hplain '"' List.mem_cons_self
    revert hquote
    decide +kernel
  unfold read
  rw [htrim]
  dsimp only
  rw [Style.unquote?_quoted, hplain]
  dsimp only
  split <;> split <;> simp_all

theorem not_mem_syntaxChars_of_isNumberText {cs : List Char} (h : IsNumberText cs) :
    ∀ c ∈ cs, c ∉ Style.syntaxChars := by
  have hnone : ∀ c ∈ Style.syntaxChars, isNumberChar c = false := by decide
  intro c hc hmem
  exact absurd ((h c hc).symm.trans (hnone c hmem)) (by decide)

/-- A text of characters of numbers is read as a number or as source code. -/
theorem read_of_isNumberText {cs : List Char} (h : IsNumberText cs) : read cs =
    if Number.isPlainNumber cs then
      if '.' ∈ cs then .float ((Binary64.read? cs).getD .nan) else .int ((Number.readInt? cs).getD 0)
    else .raw (String.ofList cs) := by
  unfold read
  rw [trim_of_isSolid h.isSolid]
  dsimp only
  rw [Style.unquote?_of_not_mem_syntaxChars (not_mem_syntaxChars_of_isNumberText h)]
  simp only [List.contains_iff_mem]

/-! ### What a value is read from -/

/-- Numbers are read as they are kept, and source code is the text without the blanks around it. -/
theorem read_cases (cs : List Char) :
    (∃ value, read cs = .text value) ∨ (∃ value, read cs = .int value) ∨
      (∃ value : Binary64, read cs = .float value ∧ value.IsCanonical) ∨
      read cs = .raw (String.ofList (trim cs)) := by
  have hcanonical : ((Binary64.read? (trim cs)).getD .nan).IsCanonical := by
    cases h : Binary64.read? (trim cs) with
    | none => trivial
    | some x => exact Binary64.isCanonical_read? h
  generalize hv : read cs = v
  unfold read at hv
  dsimp only at hv
  split at hv
  · rename_i hquoted
    split at hquoted
    · split at hquoted
      · exact absurd hquoted (by simp)
      · exact .inl ⟨_, hv.symm.trans (Option.some.inj hquoted).symm⟩
    · exact absurd hquoted (by simp)
  · split at hv
    · split at hv
      · exact .inr (.inr (.inl ⟨_, hv.symm, hcanonical⟩))
      · exact .inr (.inl ⟨_, hv.symm⟩)
    · exact .inr (.inr (.inr hv.symm))

/-- A value that is read from one part is written as one part. -/
theorem isWhole_print_read {separator : Char} (hseparator : separator ∈ [',', ':']) {cs : List Char}
    (h : Style.IsWhole separator cs) : Style.IsWhole separator (read cs).print := by
  have hnumber {cs : List Char} (hcs : IsNumberText cs) : Style.IsWhole separator cs :=
    Style.isWhole_of_not_mem_syntaxChars hseparator (not_mem_syntaxChars_of_isNumberText hcs)
  obtain ⟨value, heq⟩ | ⟨value, heq⟩ | ⟨value, heq, -⟩ | heq := read_cases cs <;> rw [heq, print]
  · exact Style.isWhole_quoted hseparator false _
  · exact hnumber (isNumberText_int value)
  · exact hnumber (Binary64.isNumberText_wholeOr Binary64.isNumberText_shortest value)
  · rw [String.toList_ofList]
    exact h.trim

/-! ### Values that are read back -/

theorem same_read_print_text_iff (value : String) :
    (text value).Same (read (text value).print) ↔ (text value).IsStable := by
  rw [Same, IsStable, print, read_quoted]
  split
  · rename_i hquote
    refine iff_of_false (by simp [whole]) fun hplain => ?_
    rw [Json.flatMap_writeChar_eq_iff.2 hplain] at hquote
    exact (hplain _ hquote).2.1 rfl
  · have hwhole (value : String) : (text value).whole = text value := rfl
    rw [← Json.flatMap_writeChar_eq_iff, hwhole, hwhole, StyleValue.text.injEq, ← String.toList_inj,
      String.toList_ofList, eq_comm]

theorem read_print_int (n : Int) : read (int n).print = .int n := by
  rw [print, read_of_isNumberText (isNumberText_int n), if_pos (Number.isPlainNumber_toString n),
    if_neg (Number.point_not_mem_toString n), Number.readInt?_toString]
  rfl

theorem print_float (x : Binary64) :
    (float x).print = if x.isIntegral then (int x.truncate).print else x.shortest := by
  rfl

theorem whole_float (x : Binary64) :
    (float x).whole = if x.isIntegral then .int x.truncate else .float x := by
  rfl

theorem same_read_print_float_iff {x : Binary64} (hx : x.IsCanonical) :
    (float x).Same (read (float x).print) ↔ (float x).IsStable := by
  rw [Same, whole_float, print_float]
  cases hwhole : x.isIntegral with
  | true =>
    rw [if_pos rfl, if_pos rfl, read_print_int]
    exact iff_of_true rfl (.inl hwhole)
  | false =>
    rw [if_neg (by decide), if_neg (by decide), read_of_isNumberText (Binary64.isNumberText_shortest x)]
    split
    · rename_i hplain
      rw [if_pos (Binary64.point_mem_shortest hx hplain), Binary64.read?_shortest hx hplain, Option.getD_some,
        whole_float, hwhole]
      exact iff_of_true rfl (.inr hplain)
    · rename_i hplain
      exact iff_of_false (by simp [whole]) (not_or.2 ⟨Bool.eq_false_iff.1 hwhole, hplain⟩)

/-- A value that was read is read back exactly if it is written in the syntax that it is read from. -/
theorem same_read_print_iff (cs : List Char) :
    (read cs).Same (read (read cs).print) ↔ (read cs).IsStable := by
  obtain ⟨value, heq⟩ | ⟨value, heq⟩ | ⟨value, heq, hvalue⟩ | heq := read_cases cs
  · rw [heq]
    exact same_read_print_text_iff value
  · rw [heq, read_print_int]
    exact iff_of_true rfl trivial
  · rw [heq]
    exact same_read_print_float_iff hvalue
  · have hprint : (read cs).print = trim cs := by
      rw [heq, print, String.toList_ofList]
    rw [hprint, read_trim, heq]
    exact iff_of_true rfl trivial

end StyleValue

namespace Style

/-! ### Styles that were read -/

/-- Each name stands once, and each value was read from one part. -/
structure IsRead (s : Style) : Prop where
  nodup : s.entries.keys.Nodup
  values : ∀ entry ∈ s.entries, ∃ cs, IsWhole ',' cs ∧ entry.2 = StyleValue.read cs

theorem isRead_empty : empty.IsRead :=
  ⟨List.nodup_nil, List.forall_mem_nil _⟩

theorem IsRead.set {s : Style} (h : s.IsRead) (key : String) {value : StyleValue}
    (hvalue : ∃ cs, IsWhole ',' cs ∧ value = StyleValue.read cs) : (s.set key value).IsRead := by
  refine ⟨OrderedMap.nodup_keys_insert h.nodup key value, fun entry hentry => ?_⟩
  obtain hentry | rfl := OrderedMap.mem_insert hentry
  · exact h.values entry hentry
  · exact hvalue

theorem exists_source_of_read {part : List Char} {key : String} {value : StyleValue}
    (hpart : IsWhole ',' part) (h : readEntry? part = some (key, value)) :
    ∃ cs, IsWhole ',' cs ∧ value = StyleValue.read cs := by
  unfold readEntry? at h
  split at h
  · rename_i name first rest hsplit
    obtain ⟨hparts, rfl⟩ := exists_of_splitTopLevel? hsplit
    obtain ⟨_, -, heq⟩ := Option.map_eq_some_iff.1 h
    have hcolon : IsWhole ',' [':'] :=
      isWhole_of_isPlain (List.forall_mem_singleton.2 ⟨isPlain_colon, by decide⟩)
    rw [List.intercalate_cons_cons, List.append_assoc] at hpart
    obtain ⟨-, hvalue⟩ := IsWhole.of_append (hparts name List.mem_cons_self).isSettled hpart
    exact ⟨_, (IsWhole.of_append hcolon.isSettled hvalue).2, (Prod.mk.inj heq).2.symm⟩
  · exact absurd h (by simp)

theorem isRead_readEntries? {parts : List (List Char)} (hparts : ∀ part ∈ parts, IsWhole ',' part)
    {s s' : Style} (hs : s.IsRead) (h : readEntries? s parts = some s') : s'.IsRead := by
  induction parts generalizing s with
  | nil => exact Option.some.inj h ▸ hs
  | cons part rest ih =>
    obtain ⟨hpart, hrest⟩ := List.forall_mem_cons.1 hparts
    rw [readEntries?] at h
    split at h
    · exact ih hrest hs h
    · split at h
      · rename_i hentry
        exact ih hrest (hs.set _ (exists_source_of_read hpart hentry)) h
      · exact absurd h (by simp)

theorem isRead_read? {source : List Char} {s : Style} (h : read? source = some s) : s.IsRead := by
  unfold read? at h
  split at h
  · exact absurd h (by simp)
  · split at h
    · split at h
      · rename_i hsplit
        exact isRead_readEntries? (exists_of_splitTopLevel? hsplit).1 isRead_empty h
      · exact absurd h (by simp)
    · exact absurd h (by simp)

/-! ### Entries and styles as they are written -/

/-- The entry that is read from what is written for one. -/
def rereadEntry (entry : String × StyleValue) : String × StyleValue :=
  (rereadKey entry.1, StyleValue.read entry.2.print)

variable {entry : String × StyleValue} {l r : List Char}

theorem isWhole_printEntry (h : IsWhole ',' entry.2.print) : IsWhole ',' (printEntry entry) := by
  have hcolon : IsWhole ',' [':', ' '] :=
    isWhole_of_isPlain (by simp [isPlain_colon, isPlain_of_isBlank (show isBlank ' ' = true by decide)])
  exact (isWhole_printKey (by decide) _).append (hcolon.append h)

theorem readEntry?_printEntry (h : IsWhole ',' entry.2.print) (hl : ∀ c ∈ l, isBlank c = true)
    (hr : ∀ c ∈ r, isBlank c = true) :
    readEntry? (l ++ (printEntry entry ++ r)) = some (rereadEntry entry) := by
  have hspace : ∀ c ∈ [' '], isBlank c = true := by decide
  have hname : IsWhole ':' (l ++ printKey entry.1) :=
    (isWhole_of_isBlank (by decide) hl).append (isWhole_printKey (by decide) entry.1)
  have hrest : IsSettled ([' '] ++ (entry.2.print ++ r)) :=
    ((isWhole_of_isBlank (by decide) hspace).append
      (h.append (isWhole_of_isBlank (by decide) hr))).isSettled
  obtain ⟨part, parts, hsplit⟩ := exists_splitTopLevel? isPlain_colon hrest
  have htext : l ++ (printEntry entry ++ r)
      = (l ++ printKey entry.1) ++ ':' :: ([' '] ++ (entry.2.print ++ r)) := by
    simp [printEntry]
  unfold readEntry?
  rw [htext, splitTopLevel?_append hname, hsplit, Option.map_some]
  dsimp only
  rw [readKey?_printKey hl, Option.map_some, ← (exists_of_splitTopLevel? hsplit).2,
    StyleValue.read_append_blanks hspace hr, rereadEntry]

/-- An entry as it stands in an object literal. -/
def IsWritten (entry : String × StyleValue) (part : List Char) : Prop :=
  ∃ r, (∀ c ∈ r, isBlank c = true) ∧ part = [' '] ++ (printEntry entry ++ r)

/-- An object literal is cut into its entries. -/
theorem exists_parts {entries : List (String × StyleValue)} (hne : entries ≠ []) :
    ∃ part parts, List.Forall₂ IsWritten entries (part :: parts) ∧
      ' ' :: (List.intercalate [',', ' '] (entries.map printEntry) ++ [' '])
        = List.intercalate [','] (part :: parts) := by
  induction entries with
  | nil => exact absurd rfl hne
  | cons entry rest ih =>
    cases rest with
    | nil => exact ⟨_, [], .cons ⟨[' '], by decide, rfl⟩ .nil, by simp⟩
    | cons next rest =>
      obtain ⟨part, parts, hparts, heq⟩ := ih (by simp)
      refine ⟨_, part :: parts, .cons ⟨[], List.forall_mem_nil _, rfl⟩ hparts, ?_⟩
      rw [List.intercalate_cons_cons, ← heq, List.map_cons, List.map_cons, List.intercalate_cons_cons]
      simp

theorem isWhole_of_isWritten {entries : List (String × StyleValue)} {parts : List (List Char)}
    (hparts : List.Forall₂ IsWritten entries parts) (h : ∀ entry ∈ entries, IsWhole ',' entry.2.print) :
    ∀ part ∈ parts, IsWhole ',' part := by
  induction hparts with
  | nil => exact List.forall_mem_nil _
  | cons hpart hparts ih =>
    obtain ⟨hentry, hentries⟩ := List.forall_mem_cons.1 h
    obtain ⟨r, hr, rfl⟩ := hpart
    refine List.forall_mem_cons.2 ⟨?_, ih hentries⟩
    exact (isWhole_of_isBlank (by decide) (by decide)).append
      ((isWhole_printEntry hentry).append (isWhole_of_isBlank (by decide) hr))

theorem readEntries?_of_isWritten {entries : List (String × StyleValue)} {parts : List (List Char)}
    (hparts : List.Forall₂ IsWritten entries parts) (h : ∀ entry ∈ entries, IsWhole ',' entry.2.print)
    (s : Style) : readEntries? s parts
      = some ⟨(entries.map rereadEntry).foldl (fun m (key, value) => m.insert key value) s.entries⟩ := by
  induction hparts generalizing s with
  | nil => rfl
  | @cons entry part entries parts hpart hparts ih =>
    obtain ⟨hentry, hentries⟩ := List.forall_mem_cons.1 h
    obtain ⟨r, hr, rfl⟩ := hpart
    have hsolid : ':' ∈ trim ([' '] ++ (printEntry entry ++ r)) :=
      mem_trim_of_mem (by simp [printEntry]) (by decide)
    rw [readEntries?, if_neg (by simpa using List.ne_nil_of_mem hsolid),
      readEntry?_printEntry hentry (by decide) hr]
    exact ih hentries _

theorem read?_braces (inner : List Char) : read? ('\x7b' :: (inner ++ ['\x7d']))
    = (splitTopLevel? ',' inner).bind (readEntries? empty) := by
  have htrim : trim ('\x7b' :: (inner ++ ['\x7d'])) = '\x7b' :: (inner ++ ['\x7d']) :=
    trim_of_solid_ends ⟨'\x7b', _, rfl, by decide⟩
      ⟨'\x7b' :: inner, '\x7d', rfl, by decide⟩
  have hlast : ('\x7b' :: (inner ++ ['\x7d'])).getLast? = some '\x7d' := by
    rw [← List.cons_append, List.getLast?_concat]
  rw [read?, htrim]
  dsimp only
  rw [if_pos (by simp [hlast]), List.dropLast_concat]
  cases splitTopLevel? ',' inner <;> rfl

/-- What is written for a style is read as the style that its entries are read as. -/
theorem read?_print {s : Style} (h : ∀ entry ∈ s.entries, IsWhole ',' entry.2.print) :
    read? s.print = some ⟨OrderedMap.ofEntries (s.entries.map rereadEntry)⟩ := by
  obtain hnil | hne := Decidable.em (s.entries = [])
  · rw [print, hnil]
    rfl
  · obtain ⟨part, parts, hwritten, hinner⟩ := exists_parts hne
    have hprint : s.print = '\x7b' :: (List.intercalate [','] (part :: parts) ++ ['\x7d']) := by
      rw [← hinner, print, if_neg (by simpa using hne)]
      simp
    rw [hprint, read?_braces, splitTopLevel?_intercalate (isWhole_of_isWritten hwritten h) (by simp),
      Option.bind_some, readEntries?_of_isWritten hwritten h]
    rfl

/-! ### Styles that are read back -/

/-- The same names in the same order, with values that are equal. -/
def Same (s s' : Style) : Prop :=
  List.Forall₂ (fun entry entry' => entry.1 = entry'.1 ∧ entry.2.Same entry'.2) s.entries s'.entries

/-- A style that was read is written as one that is read again, and that is the same style exactly if each
name is read back and each value is written in the syntax that it is read from. -/
theorem same_reread_iff {source : List Char} {s : Style} (h : read? source = some s) :
    ∃ s', read? s.print = some s' ∧
      (s.Same s' ↔ ∀ entry ∈ s.entries, IsStableKey entry.1 ∧ entry.2.IsStable) := by
  obtain ⟨hnodup, hvalues⟩ := isRead_read? h
  have hwhole : ∀ entry ∈ s.entries, IsWhole ',' entry.2.print := by
    intro entry hentry
    obtain ⟨cs, hcs, heq⟩ := hvalues entry hentry
    exact heq ▸ StyleValue.isWhole_print_read (by decide) hcs
  have hstable : ∀ entry ∈ s.entries,
      (entry.1 = (rereadEntry entry).1 ∧ entry.2.Same (rereadEntry entry).2 ↔
        IsStableKey entry.1 ∧ entry.2.IsStable) := by
    intro entry hentry
    obtain ⟨cs, -, heq⟩ := hvalues entry hentry
    refine and_congr (eq_comm.trans rereadKey_eq_iff) ?_
    rw [rereadEntry, heq]
    exact StyleValue.same_read_print_iff cs
  refine ⟨_, read?_print hwhole, ?_⟩
  have hlist : s.Same ⟨s.entries.map rereadEntry⟩ ↔
      ∀ entry ∈ s.entries, IsStableKey entry.1 ∧ entry.2.IsStable := by
    rw [Same, List.forall₂_map_right_iff, List.forall₂_same]
    exact forall₂_congr hstable
  constructor
  · -- no two names have been read as one, or there would be fewer entries
    intro hsame
    have hlength := hsame.length_eq
    rw [OrderedMap.ofEntries_eq_of_length (by simpa using hlength.le)] at hsame
    exact hlist.1 hsame
  · intro hall
    have hkeys : (s.entries.map rereadEntry).map Prod.fst = s.entries.keys := by
      rw [List.map_map]
      exact List.map_congr_left fun entry hentry => rereadKey_eq_iff.2 (hall entry hentry).1
    rw [OrderedMap.ofEntries_eq_self (by rw [OrderedMap.keys, hkeys]; exact hnodup)]
    exact hlist.2 hall

/-- An object literal of a number, a text, a fraction and source code. -/
def mixedSource : String :=
  "\x7b fontWeight: 700, 'line-height': 1.5, color: 'red', margin: f(a, \"b\") \x7d"

/-- The style that it writes. -/
def mixedStyle : Style :=
  ⟨[("fontWeight", .int 700), ("line-height", .float (.finite false 6755399441055744 (-52))),
    ("color", .text "red"), ("margin", .raw "f(a, \"b\")")]⟩

theorem mixedStyle_reread : read? mixedSource.toList = some mixedStyle ∧
    ∃ s', read? mixedStyle.print = some s' ∧ mixedStyle.Same s' := by
  have hread : read? mixedSource.toList = some mixedStyle := by decide +kernel
  obtain ⟨s', hs', hsame⟩ := same_reread_iff hread
  exact ⟨hread, s', hs', hsame.2 (by decide +kernel)⟩

/-- An object literal of a text with a backslash. -/
def escapedSource : String :=
  "\x7b content: \"\\201C\" \x7d"

/-- The style that it writes. -/
def escapedStyle : Style :=
  ⟨[("content", .text "\\201C")]⟩

/-- The backslash is written behind another one, and read as two. -/
theorem escapedStyle_not_reread : read? escapedSource.toList = some escapedStyle ∧
    ¬∃ s', read? escapedStyle.print = some s' ∧ escapedStyle.Same s' := by
  have hread : read? escapedSource.toList = some escapedStyle := by decide +kernel
  have hagain : read? escapedStyle.print = some ⟨[("content", .text "\\\\201C")]⟩ := by decide +kernel
  refine ⟨hread, ?_⟩
  rintro ⟨s', hs', hsame⟩
  obtain rfl := Option.some.inj (hagain.symm.trans hs')
  obtain ⟨-, hvalue⟩ := (List.forall₂_cons.1 hsame).1
  exact absurd (StyleValue.text.inj hvalue) (by decide)

end Style

end MarkupTidy
