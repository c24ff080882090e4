import MarkupTidy.Markup.Scan
import MarkupTidy.Proofs.Markup.Legible
import MarkupTidy.Proofs.Markup.Tag

/-! # Trees that can be written

A tree may hold what no markup says: a tag that is no name, a value with both quotes, two texts
next to each other.  Here are the conditions under which printing says what the tree holds, and
the reading of tags that were printed.

* `Attribute.IsWritten`, `Node.TextsWritten`, `Element.IsWritten`: these conditions.
* `readAttributes_passages`, `readOpening_passages`: a printed tag is read back if its expressions
  are legible. -/

namespace MarkupTidy

open MarkupTidy.Markup MarkupTidy.Text

/-- A name of a tag or an attribute. -/
def IsName (name : String) : Prop :=
  Name.read? name.toList = some (name.toList, [])

instance (name : String) : Decidable (IsName name) :=
  inferInstanceAs (Decidable (_ = _))

/-- The attribute has a name, unless it is a spread, and a value that can stand in quotes or in
braces. -/
def Attribute.IsWritten (a : Attribute) : Prop :=
  match a.value with
  | .flag => IsName a.name
  | .text value => IsName a.name ∧ ('"' ∉ value.toList ∨ '\'' ∉ value.toList)
  | .expression source =>
    a.name = "" ∨ IsName a.name ∧ (a.name = "style" → Style.read? source.toList = none)
  | .style _ => True

instance : (a : Attribute) → Decidable a.IsWritten
  | ⟨name, .flag⟩ => inferInstanceAs (Decidable (IsName name))
  | ⟨name, .text value⟩ =>
    inferInstanceAs (Decidable (IsName name ∧ ('"' ∉ value.toList ∨ '\'' ∉ value.toList)))
  | ⟨name, .expression source⟩ =>
    inferInstanceAs (Decidable
      (name = "" ∨ IsName name ∧ (name = "style" → Style.read? source.toList = none)))
  | ⟨_, .style _⟩ => inferInstanceAs (Decidable True)

/-- The attribute holds no inline style. -/
def Attribute.HoldsNoStyle (a : Attribute) : Prop :=
  ∀ s, a.value ≠ .style s

/-- The texts among nodes are not empty, hold no bracket or brace and stand apart. -/
def Node.TextsWritten : List Node → Prop
  | [] => True
  | .text value :: rest =>
    value ≠ "" ∧ (∀ c ∈ value.toList, Progress.isTextChar c = true) ∧
      rest.head?.any Node.isText = false ∧ Node.TextsWritten rest
  | .expression _ :: rest => Node.TextsWritten rest
  | .element _ :: rest => Node.TextsWritten rest

instance decidableTextsWritten : (ns : List Node) → Decidable (Node.TextsWritten ns)
  | [] => inferInstanceAs (Decidable True)
  | .text value :: rest =>
    have := decidableTextsWritten rest
    have : Decidable (∀ c ∈ value.toList, Progress.isTextChar c = true) := List.decidableBAll _ _
    inferInstanceAs (Decidable (value ≠ "" ∧ (∀ c ∈ value.toList, Progress.isTextChar c = true) ∧
      rest.head?.any Node.isText = false ∧ Node.TextsWritten rest))
  | .expression _ :: rest => decidableTextsWritten rest
  | .element _ :: rest => decidableTextsWritten rest

/-- What a tree says at one element can be written. -/
structure Element.IsWritten (e : Element) : Prop where
  tag : e.tag = "" ∧ e.attributes = [] ∨ IsName e.tag
  attributes : ∀ a ∈ e.attributes, a.IsWritten
  texts : Node.TextsWritten e.children

instance (e : Element) : Decidable e.IsWritten :=
  decidable_of_iff ((e.tag = "" ∧ e.attributes = [] ∨ IsName e.tag) ∧
      (∀ a ∈ e.attributes, a.IsWritten) ∧ Node.TextsWritten e.children)
    ⟨fun ⟨tag, attributes, texts⟩ => ⟨tag, attributes, texts⟩,
      fun ⟨tag, attributes, texts⟩ => ⟨tag, attributes, texts⟩⟩

/-- The element itself holds no inline style. -/
def Element.HoldsNoStyle (e : Element) : Prop :=
  ∀ a ∈ e.attributes, a.HoldsNoStyle

namespace Markup

/-! ### Names -/

theorem isBlank_of_isNameStart {c : Char} (h : isNameStart c = true) : isBlank c = false := by
  simp only [isNameStart, Bool.or_eq_true, beq_iff_eq] at h
  obtain (h | rfl) | rfl := h
  · have hletter : c.isAlpha = (decide (c.val ≥ 'A'.val ∧ c.val ≤ 'Z'.val)
        || decide (c.val ≥ 'a'.val) && decide (c.val ≤ 'z'.val)) := rfl
    rw [hletter] at h
    simp only [Bool.or_eq_true, Bool.and_eq_true, decide_eq_true_eq, ge_iff_le,
      UInt32.le_iff_toNat_le] at h
    have hval : c.toNat = c.val.toNat := rfl
    have hA : ('A' : Char).val.toNat = 65 := rfl
    have hz : ('z' : Char).val.toNat = 122 := rfl
    have hZ : ('Z' : Char).val.toNat = 90 := rfl
    have ha : ('a' : Char).val.toNat = 97 := rfl
    simp only [isBlank, blankChars, CharSet.contains, List.any_cons, List.any_nil,
      Bool.or_eq_false_iff, Bool.and_eq_false_iff, decide_eq_false_iff_not, Bool.or_false]
    omega
  · decide
  · decide

theorem isTextChar_of_isBlank {c : Char} (h : isBlank c = true) :
    Progress.isTextChar c = true := by
  simp only [Progress.isTextChar, Bool.and_eq_true, bne_iff_ne]
  refine ⟨⟨?_, ?_⟩, ?_⟩ <;> (rintro rfl; simp [isBlank, blankChars, CharSet.contains] at h)

theorem exists_of_isName {name : String} (h : IsName name) : ∃ c tail, name.toList = c :: tail ∧
    isNameStart c = true ∧ ∀ d ∈ tail, isNameChar d = true := by
  obtain ⟨c, tail, hname, hstart⟩ := head?_of_nameRead? h
  rw [IsName, hname, Name.read?, if_pos hstart, Option.some.injEq, Prod.mk.injEq,
    List.cons.injEq] at h
  refine ⟨c, tail, hname, hstart, fun d hd => ?_⟩
  rw [← h.1.2] at hd
  exact forall_mem_takeWhile tail d hd

theorem ne_empty_of_isName {name : String} (h : IsName name) : name ≠ "" := by
  rintro rfl
  simp [IsName, Name.read?] at h

/-- A name is read in front of a text that does not go on with it, after any blanks. -/
theorem nameRead?_append {name : String} (h : IsName name) {rest : List Char}
    (hstop : Stops isNameChar rest) :
    Name.read? (trimLeft (name.toList ++ rest)) = some (name.toList, rest) := by
  obtain ⟨c, tail, hname, hstart, hall⟩ := exists_of_isName h
  have hblank : Stops isBlank (c :: (tail ++ rest)) := stops_cons (isBlank_of_isNameStart hstart)
  rw [hname, List.cons_append, trimLeft_of_stops hblank, Name.read?, if_pos hstart,
    takeWhile_append_of_stops hall hstop, dropWhile_append_of_stops hall hstop]

theorem isName_of_read? {cs name after : List Char} (h : Name.read? cs = some (name, after)) :
    IsName (String.ofList name) := by
  obtain ⟨c, tail, rfl, hstart⟩ := head?_of_nameRead? h
  rw [Name.read?, if_pos hstart, Option.some.injEq, Prod.mk.injEq] at h
  have hall := forall_mem_takeWhile (p := isNameChar) tail
  have htake := takeWhile_append_of_stops hall stops_nil
  have hdrop := dropWhile_append_of_stops hall stops_nil
  rw [List.append_nil] at htake hdrop
  rw [IsName, String.toList_ofList, ← h.1, Name.read?, if_pos hstart, htake, hdrop]

/-! ### Values -/

theorem readQuotedValue?_quotedValue {value : List Char} (h : '"' ∉ value ∨ '\'' ∉ value)
    (rest : List Char) : readQuotedValue? (quotedValue value ++ rest) = some (value, rest) := by
  obtain ⟨q, hq, hquote, hmem⟩ : ∃ q, quotedValue value = q :: (value ++ [q]) ∧
      (q = '"' ∨ q = '\'') ∧ q ∉ value := by
    cases hdouble : value.contains '"' with
    | true =>
      refine ⟨'\'', by simp only [quotedValue, hdouble, if_true], Or.inr rfl, ?_⟩
      obtain h | h := h
      · exact absurd (List.contains_iff_mem.1 hdouble) h
      · exact h
    | false =>
      refine ⟨'"', by simp only [quotedValue, hdouble, Bool.false_eq_true, if_false], Or.inl rfl, ?_⟩
      intro hmem
      rw [List.contains_iff_mem.2 hmem] at hdouble
      simp at hdouble
  have hall : ∀ c ∈ value, decide (c ≠ q) = true := by
    intro c hc
    exact decide_eq_true fun he => hmem (he ▸ hc)
  have hstop : Stops (fun c => decide (c ≠ q)) (q :: rest) := stops_cons (by simp)
  rw [hq, List.cons_append, List.append_assoc, List.singleton_append, readQuotedValue?,
    if_pos (by simpa using hquote), takeWhile_append_of_stops hall hstop,
    dropWhile_append_of_stops hall hstop]

theorem trimLeft_quotedValue (value rest : List Char) :
    trimLeft (quotedValue value ++ rest) = quotedValue value ++ rest := by
  refine trimLeft_of_stops ?_
  unfold quotedValue
  split
  · exact stops_cons (by decide)
  · exact stops_cons (by decide)

/-! ### Tags -/

/-- What is written after an attribute: it goes on with no name, and with no value. -/
structure IsBehind (cs : List Char) : Prop where
  stops : Stops isNameChar cs
  noValue : ∀ rest, trimLeft cs ≠ '=' :: rest

theorem isBehind_of_space {c : Char} {cs : List Char} (hc : isBlank c = false) (hne : c ≠ '=') :
    IsBehind (' ' :: c :: cs) := by
  refine ⟨stops_cons (by decide), fun rest h => ?_⟩
  rw [trimLeft_space, trimLeft_of_stops (stops_cons hc), List.cons.injEq] at h
  exact hne h.1

open Passage (join)

theorem Attributes.isBehind_passages {as : Attributes} (hw : ∀ a ∈ as, a.IsWritten)
    (hplain : ∀ a ∈ as, a.HoldsNoStyle) (selfClosing : Bool) (following : List Char) :
    IsBehind (join (as.passages selfClosing) ++ following) := by
  cases as with
  | nil =>
    rw [Attributes.passages]
    cases selfClosing with
    | true => exact isBehind_of_space (by decide) (by decide)
    | false =>
      refine ⟨stops_cons (by decide), fun rest h => ?_⟩
      have hstop : Stops isBlank ('>' :: following) := stops_cons (by decide)
      have h' : trimLeft ('>' :: following) = '=' :: rest := h
      rw [trimLeft_of_stops hstop, List.cons.injEq] at h'
      exact absurd h'.1 (by decide)
  | cons a rest =>
    obtain ⟨c, tail, hprint, hc, hne⟩ : ∃ c tail, a.print = c :: tail ∧ isBlank c = false ∧
        c ≠ '=' := by
      have hw := hw a List.mem_cons_self
      have hplain := hplain a List.mem_cons_self
      obtain ⟨name, value⟩ := a
      have hnamed : ∀ more, IsName name → ∃ c tail, name.toList ++ more = c :: tail ∧
          isBlank c = false ∧ c ≠ '=' := by
        intro more hname
        obtain ⟨c, tail, htoList, hstart, _⟩ := exists_of_isName hname
        exact ⟨c, tail ++ more, by rw [htoList, List.cons_append],
          isBlank_of_isNameStart hstart, ne_of_isNameStart hstart (by decide)⟩
      cases value with
      | flag =>
        rw [Attribute.print, ← List.append_nil name.toList]
        exact hnamed [] hw
      | text value => exact hnamed _ hw.1
      | style s => exact absurd rfl (hplain s)
      | expression source =>
        simp only [Attribute.print]
        split
        · exact ⟨'\x7b', _, rfl, by decide, by decide⟩
        · rename_i hne
          exact hnamed _ (hw.resolve_left hne).1
    rw [Attributes.passages, Passage.join_cons, Passage.join_append, Attribute.join_passages, hprint]
    exact isBehind_of_space hc hne

/-- A named attribute is read after a space, if its value is read in front of what follows. -/
theorem readAttributes_attribute {name : String} {more tail : List Char} {value : AttributeValue}
    (hname : IsName name) (hstop : Stops isNameChar more)
    (hvalue : readValue name more = .ok (value, tail)) :
    readAttributes (' ' :: (name.toList ++ more)) =
      (readAttributes tail).map (consAttribute ⟨name, value⟩) := by
  have hread : Name.read? (trimLeft (' ' :: (name.toList ++ more))) = some (name.toList, more) := by
    rw [trimLeft_space]
    exact nameRead?_append hname hstop
  have hvalue' : readValue (String.ofList name.toList) more = .ok (value, tail) := by
    rw [String.ofList_toList]
    exact hvalue
  have h := readAttributes_named hread hvalue'
  rw [String.ofList_toList] at h
  exact h

theorem expressionValue_of_written {name source : String}
    (h : name = "style" → Style.read? source.toList = none) :
    expressionValue name source.toList = .expression source := by
  unfold expressionValue
  split
  · rename_i hname
    rw [h hname, String.ofList_toList]
  · rw [String.ofList_toList]

/-- A printed attribute is read back in front of what is written behind it. -/
theorem readAttributes_print {a : Attribute} (hw : a.IsWritten) (hplain : a.HoldsNoStyle)
    {tail : List Char} (hbehind : IsBehind tail) (h : Legible a.passages tail) :
    readAttributes (' ' :: (a.print ++ tail)) = (readAttributes tail).map (consAttribute a) := by
  obtain ⟨name, value⟩ := a
  cases value with
  | flag =>
    simp only [Attribute.print]
    exact readAttributes_attribute hw hbehind.stops (readValue_flag hbehind.noValue)
  | text value =>
    have heq : trimLeft ('=' :: (quotedValue value.toList ++ tail)) =
        '=' :: (quotedValue value.toList ++ tail) := rfl
    have hquoted : readQuotedValue? (trimLeft (quotedValue value.toList ++ tail)) =
        some (value.toList, tail) := by
      rw [trimLeft_quotedValue]
      exact readQuotedValue?_quotedValue hw.2 tail
    have hvalue := readValue_text name heq hquoted
    rw [String.ofList_toList] at hvalue
    simp only [Attribute.print, List.append_assoc, List.cons_append]
    exact readAttributes_attribute hw.1 (stops_cons (by decide)) hvalue
  | style s => exact absurd rfl (hplain s)
  | expression source =>
    have hread := legible_expression_iff.1 h
    by_cases hspread : name = ""
    · subst hspread
      have hbrace : trimLeft (' ' :: '\x7b' :: (source.toList ++ '\x7d' :: tail)) =
          '\x7b' :: (source.toList ++ '\x7d' :: tail) := rfl
      have hspread := readAttributes_spread hbrace hread
      rw [String.ofList_toList] at hspread
      simp only [Attribute.print, if_true, braced, List.cons_append, List.append_assoc,
        List.nil_append]
      exact hspread
    · obtain ⟨hname, hstyle⟩ := hw.resolve_left hspread
      have heq : trimLeft ('=' :: '\x7b' :: (source.toList ++ '\x7d' :: tail)) =
          '=' :: '\x7b' :: (source.toList ++ '\x7d' :: tail) := rfl
      have hbrace : trimLeft ('\x7b' :: (source.toList ++ '\x7d' :: tail)) =
          '\x7b' :: (source.toList ++ '\x7d' :: tail) := rfl
      have hvalue := readValue_expression name heq hbrace hread
      rw [expressionValue_of_written hstyle] at hvalue
      simp only [Attribute.print, if_neg hspread, braced, List.cons_append, List.append_assoc,
        List.nil_append]
      exact readAttributes_attribute hname (stops_cons (by decide)) hvalue

/-- Printed attributes, up to the end of their tag, are read back if their expressions are
legible. -/
theorem readAttributes_passages {as : Attributes} (hw : ∀ a ∈ as, a.IsWritten)
    (hplain : ∀ a ∈ as, a.HoldsNoStyle) {selfClosing : Bool} {following : List Char}
    (h : Legible (as.passages selfClosing) following) :
    readAttributes (join (as.passages selfClosing) ++ following) =
      .ok (as, selfClosing, following) := by
  induction as with
  | nil =>
    cases selfClosing with
    | true => exact readAttributes_selfEnd rfl
    | false => exact readAttributes_end rfl
  | cons a rest ih =>
    obtain ⟨hwa, hwrest⟩ := List.forall_mem_cons.1 hw
    obtain ⟨hplaina, hplainrest⟩ := List.forall_mem_cons.1 hplain
    rw [Attributes.passages, legible_plain, legible_append] at h
    have hbehind := Attributes.isBehind_passages hwrest hplainrest selfClosing following
    rw [Attributes.passages, Passage.join_cons, Passage.join_append, Attribute.join_passages,
      Passage.text, List.singleton_append, List.cons_append, List.append_assoc,
      readAttributes_print hwa hplaina hbehind h.1, ih hwrest hplainrest h.2]
    rfl

/-- A printed opening tag is read back if its expressions are legible. -/
theorem readOpening_passages {tag : String} {as : Attributes} {selfClosing : Bool}
    (htag : tag = "" ∧ as = [] ∧ selfClosing = false ∨ IsName tag) (hw : ∀ a ∈ as, a.IsWritten)
    (hplain : ∀ a ∈ as, a.HoldsNoStyle) {following : List Char}
    (h : Legible (openPassages tag as selfClosing) following) :
    ∃ c rest, openTag tag as selfClosing ++ following = '<' :: c :: rest ∧
      (tag = "" ∧ c = '>' ∨ tag.toList.head? = some c ∧ isNameStart c = true) ∧
      readOpening (c :: rest) = .ok (⟨tag, as, selfClosing⟩, following) := by
  obtain ⟨rfl, rfl, rfl⟩ | hname := htag
  · exact ⟨'>', following, rfl, Or.inl ⟨rfl, rfl⟩, rfl⟩
  · have hne := ne_empty_of_isName hname
    obtain ⟨c, tail, htoList, hstart, _⟩ := exists_of_isName hname
    rw [openPassages, if_neg hne, legible_plain] at h
    refine ⟨c, tail ++ (join (as.passages selfClosing) ++ following), ?_,
      Or.inr ⟨by rw [htoList]; rfl, hstart⟩, ?_⟩
    · rw [← join_openPassages, openPassages, if_neg hne, Passage.join_cons, Passage.text, htoList]
      simp
    · have hread := nameRead?_append hname
        (Attributes.isBehind_passages hw hplain selfClosing following).stops
      have hopening := readOpening_named hread (readAttributes_passages hw hplain h)
      rw [String.ofList_toList, htoList] at hopening
      exact hopening

/-- A printed closing tag of a named element is read back. -/
theorem readClosing_closeTag {tag : String} (hname : IsName tag) (following : List Char) :
    ∃ rest remaining, closeTag tag ++ following = '<' :: '/' :: rest ∧
      readClosing rest = .ok (⟨tag, remaining⟩, following) := by
  have hstop : Stops isNameChar ('>' :: following) := stops_cons (by decide)
  have hclosing := readClosing_named (nameRead?_append hname hstop) rfl
  rw [String.ofList_toList] at hclosing
  refine ⟨tag.toList ++ '>' :: following, _, ?_, hclosing⟩
  rw [closeTag, if_neg (ne_empty_of_isName hname)]
  simp

end Markup

end MarkupTidy
