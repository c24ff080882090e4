import MarkupTidy.Proofs.Markup.Passage
import MarkupTidy.Proofs.OrderedMap
import MarkupTidy.Proofs.Text.Search
import MarkupTidy.Proofs.Text.Words
import MarkupTidy.Proofs.Text.Utf8
import MarkupTidy.Sheet.Printer
import MarkupTidy.Sheet.Reader

/-! # Declarations that are read back

A declaration is read back if the reader takes all of its property, and if its value has no blanks at
its ends.

* `IsProperty`: a text that is read as one property.
* `finds_printDeclaration`: a declaration in a body is read as it is written.
* `IsReadable`, `isReadable_readDeclarations`: declarations that can be read back, and all that are
  read are of that kind. -/

namespace MarkupTidy.Sheet

open MarkupTidy.Text MarkupTidy.Markup

/-! ### Properties -/

/-- A text that is read as a property, all of it. -/
def IsProperty (property : List Char) : Prop :=
  readProperty? property = some (property, [])

instance (property : List Char) : Decidable (IsProperty property) :=
  inferInstanceAs (Decidable (_ = _))

/-- The parts of a property: at most two hyphens, a letter, and what goes on. -/
structure Spelling (property hyphens : List Char) (c : Char) (rest : List Char) : Prop where
  eq : property = hyphens ++ c :: rest
  hyphens : hyphens ∈ [[], ['-'], ['-', '-']]
  start : isPropertyStart c = true
  chars : ∀ d ∈ rest, isPropertyChar d = true

theorem leadingHyphens_cases (cs : List Char) :
    leadingHyphens cs ∈ [[], ['-'], ['-', '-']] ∧ ∃ rest, cs = leadingHyphens cs ++ rest := by
  unfold leadingHyphens
  split
  · exact ⟨by simp, _, rfl⟩
  · exact ⟨by simp, _, rfl⟩
  · exact ⟨by simp, cs, rfl⟩

theorem exists_spelling {cs property after : List Char}
    (h : readProperty? cs = some (property, after)) :
    ∃ hyphens c rest, Spelling property hyphens c rest := by
  obtain ⟨hhyphens, tail, htail⟩ := leadingHyphens_cases cs
  unfold readProperty? at h
  dsimp only at h
  split at h
  · exact absurd h (by simp)
  · rename_i c rest _
    split at h
    · rename_i hc
      obtain ⟨rfl, -⟩ := Prod.mk.inj (Option.some.inj h)
      exact ⟨_, c, _, rfl, hhyphens, hc, forall_mem_takeWhile rest⟩
    · exact absurd h (by simp)

theorem Spelling.leadingHyphens_append {property hyphens rest : List Char} {c : Char}
    (h : Spelling property hyphens c rest) (after : List Char) :
    leadingHyphens (property ++ after) = hyphens := by
  have hc : c ≠ '-' := by
    rintro rfl
    exact absurd h.start (by decide)
  obtain ⟨rfl, hhyphens, -, -⟩ := h
  simp only [List.mem_cons, List.not_mem_nil, or_false] at hhyphens
  obtain rfl | rfl | rfl := hhyphens
  · simp [leadingHyphens, hc]
  · simp [leadingHyphens, hc]
  · rfl

/-- A property is read up to the first character that cannot go on with it. -/
theorem Spelling.readProperty?_append {property hyphens rest : List Char} {c : Char}
    (h : Spelling property hyphens c rest) {after : List Char} (hstop : Stops isPropertyChar after) :
    readProperty? (property ++ after) = some (property, after) := by
  unfold readProperty?
  dsimp only
  rw [h.leadingHyphens_append]
  obtain ⟨rfl, -, hc, hrest⟩ := h
  rw [List.append_assoc, List.drop_left, List.cons_append]
  dsimp only
  rw [if_pos hc, takeWhile_append_of_stops hrest hstop, dropWhile_append_of_stops hrest hstop]

theorem IsProperty.exists_spelling {property : List Char} (h : IsProperty property) :
    ∃ hyphens c rest, Spelling property hyphens c rest :=
  Sheet.exists_spelling h

theorem IsProperty.readProperty?_append {property after : List Char} (h : IsProperty property)
    (hstop : Stops isPropertyChar after) :
    readProperty? (property ++ after) = some (property, after) := by
  obtain ⟨_, _, _, hspelling⟩ := h.exists_spelling
  exact hspelling.readProperty?_append hstop

/-- What is read as a property is one. -/
theorem isProperty_of_readProperty? {cs property after : List Char}
    (h : readProperty? cs = some (property, after)) : IsProperty property := by
  obtain ⟨_, _, _, hspelling⟩ := exists_spelling h
  have := hspelling.readProperty?_append stops_nil
  rwa [List.append_nil] at this

theorem isPropertyChar_of_isPropertyStart {c : Char} (h : isPropertyStart c = true) :
    isPropertyChar c = true := by
  revert h
  unfold isPropertyStart isPropertyChar Char.isAlphanum
  simp only [Bool.or_eq_true]
  exact fun h => h.elim (fun h => .inl (.inl (.inl h))) fun h => .inl (.inr h)

theorem IsProperty.isPropertyChar_of_mem {property : List Char} (h : IsProperty property) {c : Char}
    (hc : c ∈ property) : isPropertyChar c = true := by
  obtain ⟨hyphens, d, rest, rfl, hhyphens, hd, hrest⟩ := h.exists_spelling
  obtain hc | hc := List.mem_append.1 hc
  · simp only [List.mem_cons, List.not_mem_nil, or_false] at hhyphens
    have : c = '-' := by
      obtain rfl | rfl | rfl := hhyphens <;> simp_all
    rw [this]
    decide
  · obtain rfl | hc := List.mem_cons.1 hc
    · exact isPropertyChar_of_isPropertyStart hd
    · exact hrest c hc

theorem toNat_lt_of_isPropertyChar {c : Char} (h : isPropertyChar c = true) : c.toNat < 0x80 := by
  simp only [isPropertyChar, Bool.or_eq_true, decide_eq_true_eq] at h
  obtain (h | rfl) | rfl := h
  · exact toNat_lt_of_isAlphanum h
  · decide
  · decide

/-- A character of a property is no blank, and no mark of the syntax of stylesheets. -/
theorem not_mark_of_isPropertyChar {c : Char} (h : isPropertyChar c = true) :
    isBlank c = false ∧ c ∉ ['\x7b', '\x7d', ';', '*'] ∧ '*' ∉ uppercase [c] := by
  have hall : ∀ n < 0x80, isPropertyChar (Char.ofNat n) = true →
      isBlank (Char.ofNat n) = false ∧ Char.ofNat n ∉ ['\x7b', '\x7d', ';', '*'] ∧
        '*' ∉ uppercase [Char.ofNat n] := by
    decide
  have := hall c.toNat (toNat_lt_of_isPropertyChar h)
  rw [Char.ofNat_toNat] at this
  exact this h

/-! ### Declarations -/

/-- Declarations that can be read back. -/
def IsReadable (declarations : List (String × String)) : Prop :=
  ∀ e ∈ declarations, IsProperty e.1.toList ∧ trim e.2.toList = e.2.toList

instance (declarations : List (String × String)) : Decidable (IsReadable declarations) :=
  inferInstanceAs (Decidable (∀ e ∈ declarations, _ ∧ _))

/-- The reader finds nothing in blanks. -/
theorem readDeclaration?_of_isBlank {c : Char} (h : isBlank c = true) (rest : List Char) :
    readDeclaration? (c :: rest) = none := by
  have hstart : isPropertyStart c = false := by
    rw [← Bool.not_eq_true]
    intro hc
    have hsolid := (not_mark_of_isPropertyChar (isPropertyChar_of_isPropertyStart hc)).1
    rw [h] at hsolid
    exact absurd hsolid (by simp)
  have hhyphens : leadingHyphens (c :: rest) = [] := by
    have hc : c ≠ '-' := by
      rintro rfl
      exact absurd h (by decide)
    simp [leadingHyphens, hc]
  unfold readDeclaration? readProperty?
  rw [hhyphens]
  simp [hstart]

theorem finds_blanks {x : List Char} (h : ∀ c ∈ x, isBlank c = true) : Finds readDeclaration? x [] :=
  finds_of_passes fun y => passes_of_forall (fun c hc => readDeclaration?_of_isBlank (h c hc)) y

/-- A declaration is read as it is printed. -/
theorem finds_printDeclaration {property value : String} (hproperty : IsProperty property.toList)
    (htrim : trim value.toList = value.toList) (hvalue : ';' ∉ value.toList) :
    Finds readDeclaration? (printDeclaration property value).toList [(property, value)] := by
  refine finds_of_read (fun y => ?_) (by simp [printDeclaration])
  have htext : (printDeclaration property value).toList ++ y
      = property.toList ++ ':' :: ((' ' :: value.toList) ++ ';' :: y) := by
    simp [printDeclaration]
  have hcut : ';' ∉ ' ' :: value.toList := by simp [hvalue]
  have hstop : Stops isPropertyChar (':' :: ((' ' :: value.toList) ++ ';' :: y)) :=
    stops_cons (by decide)
  have hread : readDeclaration? (property.toList ++ ':' :: ((' ' :: value.toList) ++ ';' :: y))
      = some ((property, value), y) := by
    unfold readDeclaration?
    rw [hproperty.readProperty?_append hstop]
    dsimp only
    rw [List.dropWhile_cons_of_neg (by decide), afterText?_eq_some.2 (List.singleton_append).symm,
      Option.bind_some, cutAt?_append_cons hcut]
    have hblank : trim (' ' :: value.toList) = value.toList := by
      rw [← List.singleton_append, trim_append_left (by decide), htrim]
    simp [hblank]
  rw [htext, hread]

/-- What is read as a declaration can be read back. -/
theorem isReadable_of_readDeclaration? {cs after : List Char} {e : String × String}
    (h : readDeclaration? cs = some (e, after)) :
    IsProperty e.1.toList ∧ trim e.2.toList = e.2.toList := by
  unfold readDeclaration? at h
  split at h
  · exact absurd h (by simp)
  · rename_i property rest hproperty
    split at h
    · exact absurd h (by simp)
    · split at h
      · exact absurd h (by simp)
      · obtain ⟨rfl, -⟩ := Prod.mk.inj (Option.some.inj h)
        dsimp only
        rw [String.toList_ofList, String.toList_ofList]
        exact ⟨isProperty_of_readProperty? hproperty, trim_trim _⟩

theorem isReadable_readDeclarations (body : List Char) : IsReadable (readDeclarations body) := by
  intro e he
  obtain ⟨_, _, hread⟩ := exists_read_of_mem_findAll (OrderedMap.mem_ofEntries he)
  exact isReadable_of_readDeclaration? hread

end MarkupTidy.Sheet
