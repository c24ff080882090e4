import MarkupTidy.Proofs.Sheet.Printing

/-! # Reading a printed stylesheet

All that is read is of a kind: its properties, values and selectors have nothing around them, its
rules are not empty and stand in the section they belong to.  A printed stylesheet is read back
exactly if it is of that kind too and if nothing in its sections reads like an import.

* `IsLegible`, `isLegible_read`: what the reader can make of any text.
* `read_printed`: a legible stylesheet is read back, its design variables by category.
* `readsBack_iff`: when a printed stylesheet is read back. -/

namespace MarkupTidy.Sheet

open MarkupTidy.Text

/-! ### What is read -/

/-- A rule that can be read back. -/
structure IsLegibleRule (r : Rule) : Prop where
  ne_nil : r.declarations ≠ []
  declarations : IsReadable r.declarations
  trim : trim r.selector.toList = r.selector.toList
  ne_root : r.selector ≠ ":root"

/-- A stylesheet that can be read back, its imports apart. -/
structure IsLegible (sheet : Sheet) : Prop where
  properties : IsReadable sheet.properties
  utilities : ∀ r ∈ sheet.utilities, IsLegibleRule r ∧ isToolSelector r.selector = true
  rules : ∀ r ∈ sheet.rules, IsLegibleRule r ∧ isToolSelector r.selector = false

/-- What is read as a rule has readable declarations and a selector without blanks around it. -/
theorem isReadable_of_readRule? {cs after : List Char} {r : Rule}
    (h : readRule? cs = some (r, after)) :
    IsReadable r.declarations ∧ trim r.selector.toList = r.selector.toList := by
  unfold readRule? at h
  dsimp only at h
  split at h
  · split at h
    · exact absurd h (by simp)
    · obtain ⟨rfl, -⟩ := Prod.mk.inj (Option.some.inj h)
      refine ⟨isReadable_readDeclarations _, ?_⟩
      rw [String.toList_ofList, trim_trim]
  · exact absurd h (by simp)

/-- A rule that is added leaves a stylesheet legible. -/
theorem IsLegible.addRule {sheet : Sheet} (h : IsLegible sheet) {r : Rule}
    (hr : IsReadable r.declarations ∧ trim r.selector.toList = r.selector.toList) :
    IsLegible (sheet.addRule r) := by
  unfold Sheet.addRule
  split
  · exact h
  · rename_i hne
    split
    · refine ⟨fun e he => ?_, h.utilities, h.rules⟩
      exact (OrderedMap.mem_foldl_insert he).elim (h.properties e) (hr.1 e)
    · rename_i hroot
      have hrule : IsLegibleRule r := ⟨by simpa using hne, hr.1, hr.2, hroot⟩
      split
      · rename_i htool
        refine ⟨h.properties, List.forall_mem_append.2 ⟨h.utilities, ?_⟩, h.rules⟩
        exact List.forall_mem_singleton.2 ⟨hrule, htool⟩
      · rename_i htool
        refine ⟨h.properties, h.utilities, List.forall_mem_append.2 ⟨h.rules, ?_⟩⟩
        exact List.forall_mem_singleton.2 ⟨hrule, Bool.eq_false_iff.2 htool⟩

/-- All that is read is legible. -/
theorem isLegible_read (source : List Char) : IsLegible (read source) := by
  have hfold : ∀ (rules : List Rule) (sheet : Sheet), IsLegible sheet →
      (∀ r ∈ rules, IsReadable r.declarations ∧ trim r.selector.toList = r.selector.toList) →
        IsLegible (rules.foldl Sheet.addRule sheet) := by
    intro rules
    induction rules with
    | nil => exact fun _ h _ => h
    | cons r rules ih =>
      intro sheet h hrules
      obtain ⟨hr, hrules⟩ := List.forall_mem_cons.1 hrules
      exact ih _ (h.addRule hr) hrules
  refine hfold _ _ ⟨?_, ?_, ?_⟩ fun r hr => ?_
  · exact List.forall_mem_nil _
  · exact List.forall_mem_nil _
  · exact List.forall_mem_nil _
  · obtain ⟨_, _, hread⟩ := exists_read_of_mem_findAll hr
    exact isReadable_of_readRule? hread

theorem imports_foldl_addRule (rules : List Rule) (sheet : Sheet) :
    (rules.foldl addRule sheet).imports = sheet.imports := by
  induction rules generalizing sheet with
  | nil => rfl
  | cons r rules ih =>
    rw [List.foldl_cons, ih, addRule]
    split
    · rfl
    · split
      · rfl
      · split <;> rfl

/-- The imports of what is read are the directives in the text without comments. -/
theorem imports_read (source : List Char) :
    (read source).imports = findAll readImport? (removeAll readComment? source) :=
  imports_foldl_addRule _ _

/-! ### What is printed -/

theorem foldl_addRule_utilities {rules : List Rule}
    (h : ∀ r ∈ rules, IsLegibleRule r ∧ isToolSelector r.selector = true) (sheet : Sheet) :
    rules.foldl addRule sheet = { sheet with utilities := sheet.utilities ++ rules } := by
  induction rules generalizing sheet with
  | nil => simp
  | cons r rules ih =>
    obtain ⟨⟨hr, htool⟩, hrules⟩ := List.forall_mem_cons.1 h
    rw [List.foldl_cons, ih hrules, addRule, if_neg (by simpa using hr.ne_nil), if_neg hr.ne_root,
      if_pos htool]
    simp

theorem foldl_addRule_rules {rules : List Rule}
    (h : ∀ r ∈ rules, IsLegibleRule r ∧ isToolSelector r.selector = false) (sheet : Sheet) :
    rules.foldl addRule sheet = { sheet with rules := sheet.rules ++ rules } := by
  induction rules generalizing sheet with
  | nil => simp
  | cons r rules ih =>
    obtain ⟨⟨hr, htool⟩, hrules⟩ := List.forall_mem_cons.1 h
    rw [List.foldl_cons, ih hrules, addRule, if_neg (by simpa using hr.ne_nil), if_neg hr.ne_root,
      if_neg (by simp [htool])]
    simp

/-- The rules of a printed stylesheet are sorted into the sections they come from. -/
theorem foldl_addRule_printedRules {sheet : Sheet} (h : IsLegible sheet)
    (hnodup : sheet.properties.keys.Nodup) (imports : List String) :
    (printedRules sheet).foldl addRule { empty with imports := imports }
      = { sheet with imports := imports, properties := ungrouped (byCategory sheet.properties) } := by
  have hperm := perm_byCategory sheet.properties
  have hkeys : (ungrouped (byCategory sheet.properties)).keys.Nodup :=
    (hperm.map Prod.fst).nodup_iff.2 hnodup
  have hroot : (if sheet.properties.isEmpty then [] else [rootRule sheet.properties]).foldl addRule
      { empty with imports := imports }
        = { empty with
            imports := imports
            properties := ungrouped (byCategory sheet.properties) } := by
    split
    · rename_i hnil
      rw [List.isEmpty_iff.1 hnil]
      rfl
    · rename_i hne
      have hdeclared : ungrouped (byCategory sheet.properties) ≠ [] := fun hnil =>
        hne (List.isEmpty_iff.2 (List.nil_perm.1 (hnil ▸ hperm)))
      have hmerge : mergeDeclarations [] (ungrouped (byCategory sheet.properties))
          = ungrouped (byCategory sheet.properties) := OrderedMap.ofEntries_eq_self hkeys
      rw [List.foldl_cons, List.foldl_nil, addRule, if_neg (by simpa [rootRule] using hdeclared)]
      simp [rootRule, empty, hmerge]
  rw [printedRules, List.foldl_append, List.foldl_append, hroot,
    foldl_addRule_utilities h.utilities, foldl_addRule_rules h.rules]
  rfl

/-- A stylesheet whose values and selectors keep clear of the marks of the syntax, and whose imports
are directives. -/
structure IsWellFormed (sheet : Sheet) : Prop where
  imports : ∀ directive ∈ sheet.imports, IsDirective directive.toList
  nodup : sheet.properties.keys.Nodup
  values : ∀ e ∈ sheet.properties, IsPlain e.2.toList
  rules : ∀ r ∈ sheet.utilities ++ sheet.rules, IsPlain r.selector.toList ∧
    r.declarations.keys.Nodup ∧ ∀ e ∈ r.declarations, IsPlain e.2.toList

theorem IsLegible.isLegibleRule {sheet : Sheet} (h : IsLegible sheet) {r : Rule}
    (hr : r ∈ sheet.utilities ++ sheet.rules) : IsLegibleRule r :=
  (List.mem_append.1 hr).elim (fun hr => (h.utilities r hr).1) fun hr => (h.rules r hr).1

theorem IsWellFormed.isPrinted {sheet : Sheet} (h : IsWellFormed sheet) (hlegible : IsLegible sheet) :
    IsPrinted sheet where
  imports := h.imports
  properties := ⟨hlegible.properties, h.values⟩
  rules := fun r hr =>
    ⟨⟨(hlegible.isLegibleRule hr).declarations, (h.rules r hr).2.2⟩, (h.rules r hr).1⟩

/-- No import directive stands in the sections of a stylesheet. -/
def HasNoOtherImports (sheet : Sheet) : Prop :=
  findAll readImport?
    (removeAll readComment? ({ sheet with imports := [] }.print heading).toList) = []

theorem hasNoOtherImports_iff {sheet : Sheet} (h : IsPrinted sheet) :
    HasNoOtherImports sheet ↔ findAll readImport? (sectionText sheet) = [] := by
  have hsections : IsPrinted { sheet with imports := [] } :=
    ⟨List.forall_mem_nil _, h.properties, h.rules⟩
  have hrest : findAll readImport? ('\n' :: sectionText sheet)
      = findAll readImport? (sectionText sheet) := finds_newline (sectionText sheet)
  rw [HasNoOtherImports, (leaves_print hsections).removeAll_eq, ← hrest]
  rfl

/-- Where no at sign stands in the sections, no import directive does. -/
theorem hasNoOtherImports_of_not_mem {sheet : Sheet} (h : IsPrinted sheet)
    (hat : '@' ∉ sectionText sheet) : HasNoOtherImports sheet := by
  have hread : ∀ c ∈ sectionText sheet, ∀ rest, readImport? (c :: rest) = none := by
    intro c hc rest
    have hne : '@' ≠ c := fun he => hat (he ▸ hc)
    have hname : "@import".toList = '@' :: "import".toList := rfl
    rw [readImport?, afterImport?, hname, afterText?, if_neg hne]
    rfl
  rw [hasNoOtherImports_iff h]
  exact findAll_eq_nil_of_passes (passes_of_forall hread [])

/-- The imports that are read are those of the stylesheet and what its sections add. -/
theorem imports_read_print {sheet : Sheet} (h : IsPrinted sheet) :
    (read (sheet.print heading).toList).imports
      = sheet.imports ++ findAll readImport? (sectionText sheet) := by
  rw [imports_read, (leaves_print h).removeAll_eq, ← List.singleton_append,
    finds_newline, List.nil_append]
  exact (finds_directives h.imports).1 (sectionText sheet)

/-- A legible stylesheet is read back, its design variables in the order of their categories. -/
theorem read_printed {sheet : Sheet} (h : IsWellFormed sheet) (hlegible : IsLegible sheet)
    (himports : HasNoOtherImports sheet) : read (sheet.print heading).toList
      = { sheet with properties := ungrouped (byCategory sheet.properties) } := by
  have hprinted := h.isPrinted hlegible
  have hrules : ∀ r ∈ sheet.utilities ++ sheet.rules, IsRule r := by
    intro r hr
    refine ⟨fun c hc hmem => ?_, (hlegible.isLegibleRule hr).trim, (h.rules r hr).2.1⟩
    refine (h.rules r hr).1 c hc ?_
    revert hmem
    simp only [List.mem_cons, List.not_mem_nil, or_false]
    exact fun hmem => hmem.imp_right Or.inl
  rw [hasNoOtherImports_iff hprinted] at himports
  have hfound : findAll readImport? ('\n' :: (unlines sheet.imports ++ sectionText sheet))
      = sheet.imports := by
    rw [← List.singleton_append, finds_newline, List.nil_append]
    have := (finds_directives h.imports).1 (sectionText sheet)
    rwa [himports, List.append_nil] at this
  have hleft : removeAll readImport? ('\n' :: (unlines sheet.imports ++ sectionText sheet))
      = ('\n' :: sheet.imports.flatMap fun _ => ['\n']) ++ sectionText sheet := by
    rw [← List.singleton_append, leaves_newline]
    have := (finds_directives h.imports).2 (sectionText sheet)
    rw [removeAll_of_findAll_eq_nil himports] at this
    rw [unlines, this]
    rfl
  have hblank : FindsRules ('\n' :: sheet.imports.flatMap fun _ => ['\n']) [] := by
    refine findsRules_of_blank fun c hc => ?_
    have : c = '\n' := by
      obtain hc | hc := List.mem_cons.1 hc
      · exact hc
      · obtain ⟨_, -, hc⟩ := List.mem_flatMap.1 hc
        exact List.mem_singleton.1 hc
    rw [this]
    decide
  have hsections := hblank.append (findsRules_sectionText hprinted h.nodup hrules)
  unfold read
  dsimp only
  rw [(leaves_print hprinted).removeAll_eq, hfound, hleft, hsections.findAll_eq, List.nil_append]
  exact foldl_addRule_printedRules hlegible h.nodup sheet.imports

/-- A printed stylesheet is read back: the same imports, design variables with the same values, and
the same rules in the same order. -/
structure ReadsBack (sheet : Sheet) : Prop where
  imports : (read (sheet.print heading).toList).imports = sheet.imports
  properties : ∀ property, (read (sheet.print heading).toList).properties.get? property
    = sheet.properties.get? property
  utilities : (read (sheet.print heading).toList).utilities = sheet.utilities
  rules : (read (sheet.print heading).toList).rules = sheet.rules

/-- Only what is legible is read back. -/
theorem ReadsBack.isLegible {sheet : Sheet} (h : ReadsBack sheet)
    (hnodup : sheet.properties.keys.Nodup) : IsLegible sheet := by
  have hread := isLegible_read (sheet.print heading).toList
  refine ⟨fun e he => ?_, h.utilities ▸ hread.utilities, h.rules ▸ hread.rules⟩
  have hget : sheet.properties.get? e.1 = some e.2 := (OrderedMap.get?_eq_some_iff hnodup).2 he
  exact hread.properties e (OrderedMap.mem_of_get? ((h.properties e.1).trans hget))

/-- A printed stylesheet is read back exactly if it is legible and no import directive stands in its
sections. -/
theorem readsBack_iff {sheet : Sheet} (h : IsWellFormed sheet) :
    ReadsBack sheet ↔ IsLegible sheet ∧ HasNoOtherImports sheet := by
  constructor
  · intro hback
    have hlegible := hback.isLegible h.nodup
    have hprinted := h.isPrinted hlegible
    refine ⟨hlegible, (hasNoOtherImports_iff hprinted).2 ?_⟩
    have himports := hback.imports
    rw [imports_read_print hprinted] at himports
    exact List.append_right_eq_self.1 himports
  · rintro ⟨hlegible, himports⟩
    have hread := read_printed h hlegible himports
    have hkeys : (ungrouped (byCategory sheet.properties)).keys.Nodup :=
      ((perm_byCategory sheet.properties).map Prod.fst).nodup_iff.2 h.nodup
    refine ⟨?_, fun property => ?_, ?_, ?_⟩
    · rw [hread]
    · rw [hread]
      exact OrderedMap.get?_eq_of_perm (perm_byCategory sheet.properties) hkeys property
    · rw [hread]
    · rw [hread]

end MarkupTidy.Sheet
