import MarkupTidy.Variable.Table

/-! # Found and declared values

Several variables may be declared by one custom property.  A look-up finds the first of them, while
the stylesheet declares the last literal among them.

* `VariableTable.valuesOf`: the values that compete for a property; `VariableTable.lastLiteral?`.
* `VariableTable.find?_eq_head?`, `VariableTable.get?_properties`: which of them is found, and which
  one is declared.
* `VariableTable.readsAsDeclared_iff`: when the two are the same value. -/

namespace MarkupTidy

open MarkupTidy.Text MarkupTidy.Variable

/-- The text of a literal. -/
def VariableValue.literal? : VariableValue → Option String
  | literal value => some value
  | font _ => none

theorem VariableValue.filterMap_literal?_cons (value : String) (values : List VariableValue) :
    (literal value :: values).filterMap literal? = value :: values.filterMap literal? :=
  rfl

namespace VariableTable

/-- The values of the variables that a custom property declares, in order. -/
def valuesOf (t : VariableTable) (property : List Char) : List VariableValue :=
  (t.entries.filter fun e => customProperty e.1.toList = property).map Prod.snd

/-- The last literal among the variables that a custom property declares. -/
def lastLiteral? (t : VariableTable) (property : List Char) : Option String :=
  ((t.valuesOf property).filterMap VariableValue.literal?).getLast?

/-- The text that a literal is declared with. -/
def declaredText (property : List Char) (literal : String) : String :=
  String.ofList (declaredValue property literal.toList)

section
variable {name : String} {value : VariableValue} {entries : OrderedMap String VariableValue}
  {property : List Char}

theorem valuesOf_cons_of_eq (h : customProperty name.toList = property) :
    (⟨(name, value) :: entries⟩ : VariableTable).valuesOf property
      = value :: (⟨entries⟩ : VariableTable).valuesOf property := by
  simp [valuesOf, h]

theorem valuesOf_cons_of_ne (h : customProperty name.toList ≠ property) :
    (⟨(name, value) :: entries⟩ : VariableTable).valuesOf property
      = (⟨entries⟩ : VariableTable).valuesOf property := by
  simp [valuesOf, h]

theorem find?_eq_head? (t : VariableTable) (property : List Char) :
    t.find? property = (t.valuesOf property).head? := by
  unfold find? valuesOf
  induction t.entries with
  | nil => rfl
  | cons entry entries ih =>
    by_cases h : customProperty entry.1.toList = property
    · simp [h]
    · simp [h]

/-! ### The declared value -/

/-- Declarations with one more variable. -/
def declare (declared : OrderedMap String String) (entry : String × VariableValue) :
    OrderedMap String String :=
  match entry.2 with
  | .font _ => declared
  | .literal literal =>
    let property := customProperty entry.1.toList
    declared.insert (String.ofList property) (declaredText property literal)

theorem properties_eq_foldl (t : VariableTable) : t.properties = t.entries.foldl declare [] :=
  rfl

theorem get?_declare_of_ne (declared : OrderedMap String String)
    (h : customProperty name.toList ≠ property) :
    (declare declared (name, value)).get? (String.ofList property)
      = declared.get? (String.ofList property) := by
  cases value with
  | font descriptor => rfl
  | literal literal =>
    exact OrderedMap.get?_insert_ne _ _ fun he => h (String.ofList_inj.1 he)

/-- Declaring more variables leaves a property with the last literal among them, if there is one. -/
theorem get?_foldl_declare (declared : OrderedMap String String) :
    (entries.foldl declare declared).get? (String.ofList property)
      = (((⟨entries⟩ : VariableTable).lastLiteral? property).map (declaredText property)).or
          (declared.get? (String.ofList property)) := by
  induction entries generalizing declared with
  | nil => rfl
  | cons entry entries ih =>
    obtain ⟨name, value⟩ := entry
    rw [List.foldl_cons, ih, lastLiteral?, lastLiteral?]
    by_cases h : customProperty name.toList = property
    · rw [valuesOf_cons_of_eq h]
      cases value with
      | font descriptor => rfl
      | literal literal =>
        rw [VariableValue.filterMap_literal?_cons, List.getLast?_cons, declare, h,
          OrderedMap.get?_insert_self]
        cases (List.filterMap VariableValue.literal? _).getLast? <;> rfl
    · rw [valuesOf_cons_of_ne h, get?_declare_of_ne _ h]

end

/-- A property is declared with its last literal. -/
theorem get?_properties (t : VariableTable) (property : List Char) :
    t.properties.get? (String.ofList property)
      = (t.lastLiteral? property).map (declaredText property) := by
  rw [properties_eq_foldl, get?_foldl_declare]
  exact Option.or_none

/-- A number without a unit is made of digits and points. -/
theorem mem_of_isUnitless {cs : List Char} (h : isUnitless cs = true) {c : Char} (hc : c ∈ cs) :
    isDecimalDigit c = true ∨ c = '.' := by
  rw [← List.takeWhile_append_dropWhile (p := isDecimalDigit) (l := cs), List.mem_append] at hc
  obtain hc | hc := hc
  · exact Or.inl (List.all_eq_true.1 List.all_takeWhile c hc)
  · unfold isUnitless at h
    split at h
    · rename_i hdrop
      rw [hdrop] at hc
      exact absurd hc List.not_mem_nil
    · rename_i fraction hdrop
      rw [hdrop] at hc
      simp only [Bool.and_eq_true] at h
      obtain rfl | hc := List.mem_cons.1 hc
      · exact Or.inr rfl
      · exact Or.inl (List.all_eq_true.1 h.2 c hc)
    · exact absurd h (by simp)

/-- A literal is declared as it is or with a unit, never with a second one. -/
theorem declaredText_cases (property : List Char) (literal : String) :
    declaredText property literal = literal ∨
      declaredText property literal = literal ++ "px" ∧ ∀ v, literal ≠ v ++ "px" := by
  unfold declaredText declaredValue
  split
  · rename_i h
    refine Or.inr ⟨?_, ?_⟩
    · rw [← String.toList_inj]
      simp
    · rintro v rfl
      have hx : 'x' ∈ (v ++ "px").toList := by simp
      rw [Bool.and_eq_true] at h
      exact absurd (mem_of_isUnitless h.1 hx) (by decide)
  · exact Or.inl String.ofList_toList

/-! ### Agreement -/

/-- The value that a property is declared with is a given one, with or without a unit. -/
def IsDeclaredAs (t : VariableTable) (property : List Char) (v : String) : Prop :=
  t.properties.get? (String.ofList property) = some v ∨
    t.properties.get? (String.ofList property) = some (v ++ "px")

/-- What is found for a property is what is declared for it; where no literal is found, nothing is
declared. -/
def ReadsAsDeclared (t : VariableTable) (property : List Char) : Prop :=
  (∀ v, t.find? property = some (.literal v) → t.IsDeclaredAs property v) ∧
    ((∀ v, t.find? property ≠ some (.literal v)) →
      t.properties.get? (String.ofList property) = none)

theorem isDeclaredAs_iff (t : VariableTable) (property : List Char) (v : String) :
    t.IsDeclaredAs property v ↔ ∃ last, t.lastLiteral? property = some last ∧
      (last = v ∨ last = v ++ "px" ∨ declaredText property last = v) := by
  unfold IsDeclaredAs
  rw [get?_properties]
  cases t.lastLiteral? property with
  | none => simp
  | some last =>
    simp only [Option.map_some, Option.some.injEq, exists_eq_left']
    obtain hdeclared | ⟨hdeclared, hunit⟩ := declaredText_cases property last
    · rw [hdeclared]
      exact ⟨fun h => h.imp_right Or.inl, fun h => h.elim Or.inl fun h => h.symm⟩
    · have hpx : last ++ "px" = v ++ "px" ↔ last = v := String.append_left_inj "px"
      have hne := hunit v
      rw [hdeclared, hpx]
      exact ⟨fun h => h.elim (fun h => Or.inr (Or.inr h)) Or.inl,
        fun h => h.elim Or.inr fun h => h.elim (fun h => absurd h hne) Or.inl⟩

theorem exists_lastLiteral? {t : VariableTable} {property : List Char} {v : String}
    (h : t.find? property = some (.literal v)) :
    ∃ last, t.lastLiteral? property = some last := by
  obtain ⟨rest, hrest⟩ := List.head?_eq_some_iff.1 ((find?_eq_head? t property).symm.trans h)
  rw [lastLiteral?, hrest, VariableValue.filterMap_literal?_cons, List.getLast?_cons]
  exact ⟨_, rfl⟩

/-- A property is found with the value that it is declared with exactly if, whenever it has a
literal, its first variable is one too, and its last literal is the same but for the unit. -/
theorem readsAsDeclared_iff (t : VariableTable) (property : List Char) :
    t.ReadsAsDeclared property ↔
      ∀ last, t.lastLiteral? property = some last →
        ∃ v, (t.valuesOf property).head? = some (.literal v) ∧
          (last = v ∨ last = v ++ "px" ∨ declaredText property last = v) := by
  rw [← find?_eq_head?]
  constructor
  · rintro ⟨hfound, hnone⟩ last hlast
    by_cases hfirst : ∃ v, t.find? property = some (.literal v)
    · obtain ⟨v, hv⟩ := hfirst
      obtain ⟨last', hlast', hsame⟩ := (isDeclaredAs_iff t property v).1 (hfound v hv)
      obtain rfl := Option.some.inj (hlast.symm.trans hlast')
      exact ⟨v, hv, hsame⟩
    · have hundeclared := hnone fun v hv => hfirst ⟨v, hv⟩
      rw [get?_properties, hlast] at hundeclared
      exact absurd hundeclared (by simp)
  · intro h
    constructor
    · intro v hv
      obtain ⟨last, hlast⟩ := exists_lastLiteral? hv
      obtain ⟨v', hv', hsame⟩ := h last hlast
      rw [hv, Option.some.injEq, VariableValue.literal.injEq] at hv'
      exact (isDeclaredAs_iff t property v).2 ⟨last, hlast, hv' ▸ hsame⟩
    · intro hfirst
      rw [get?_properties, Option.map_eq_none_iff, Option.eq_none_iff_forall_ne_some]
      intro last hlast
      obtain ⟨v, hv, -⟩ := h last hlast
      exact hfirst v hv

/-- Two spellings of one property: the value of the first is found, that of the second declared. -/
theorem spellings_not_readsAsDeclared :
    ¬ (⟨[("A", .literal "1"), ("a", .literal "2")]⟩ : VariableTable).ReadsAsDeclared
      "--a".toList := by
  intro h
  have hfound := h.1 "1" (by decide)
  unfold IsDeclaredAs at hfound
  exact absurd hfound (by decide)

end VariableTable

end MarkupTidy
