import MarkupTidy.Proofs.OrderedMap
import MarkupTidy.Proofs.Sheet.Parts
import MarkupTidy.Sheet.Printer

/-! # Printed stylesheets

The text of a stylesheet, part by part: which comments stand in it, and what is left without them.
Grouping by category changes the order of declarations and nothing else.

* `perm_byCategory`: the groups hold the declarations that were grouped; `exists_category`: a group is named
  for one of them.
* `isRuleText_print`: the text of a rule.
* `sectionText`: the sections of a stylesheet without comments; `leaves_print`: what is left of a
  printed stylesheet without its comments.
* `findsRules_sectionText`: the sections are read as rules. -/

namespace MarkupTidy

open MarkupTidy.Text MarkupTidy.Markup

namespace Sheet

/-! ### Declarations by category -/

/-- The declarations of groups, one group after the other. -/
def ungrouped (groups : OrderedMap String Declarations) : Declarations :=
  groups.flatMap Prod.snd

/-- Groups with one more declaration. -/
def addToCategory (groups : OrderedMap String Declarations) (e : String × String) :
    OrderedMap String Declarations :=
  groups.insert (category e.1) ((groups.get? (category e.1)).getD [] ++ [e])

theorem perm_insert (groups : OrderedMap String Declarations) (name : String)
    (e : String × String) :
    (ungrouped (groups.insert name ((groups.get? name).getD [] ++ [e]))).Perm
      (ungrouped groups ++ [e]) := by
  unfold ungrouped
  induction groups with
  | nil => exact List.Perm.refl _
  | cons group groups ih =>
    obtain ⟨k, declarations⟩ := group
    rw [OrderedMap.insert, OrderedMap.get?]
    split
    · simp only [List.flatMap_cons, Option.getD_some, List.append_assoc]
      exact List.Perm.append_left _ List.perm_append_comm
    · simp only [List.flatMap_cons, List.append_assoc]
      exact List.Perm.append_left _ ih

theorem perm_foldl_addToCategory (properties : Declarations)
    (groups : OrderedMap String Declarations) :
    (ungrouped (properties.foldl addToCategory groups)).Perm (ungrouped groups ++ properties) := by
  induction properties generalizing groups with
  | nil => simp
  | cons e properties ih =>
    refine (ih _).trans ?_
    rw [List.append_cons]
    exact (perm_insert groups (category e.1) e).append_right properties

/-- The groups hold the declarations that were grouped. -/
theorem perm_byCategory (properties : Declarations) :
    (ungrouped (byCategory properties)).Perm properties :=
  perm_foldl_addToCategory properties []

/-- A group is named for one of the declarations that were grouped. -/
theorem exists_category {properties : Declarations} {group : String × Declarations}
    (h : group ∈ byCategory properties) : ∃ e ∈ properties, group.1 = category e.1 := by
  have hfold : ∀ groups : OrderedMap String Declarations,
      group ∈ properties.foldl addToCategory groups →
        group ∈ groups ∨ ∃ e ∈ properties, group.1 = category e.1 := by
    clear h
    induction properties with
    | nil => exact fun groups h => .inl h
    | cons e properties ih =>
      intro groups h
      obtain h | ⟨e', he', hname⟩ := ih _ h
      · obtain h | rfl := OrderedMap.mem_insert h
        · exact .inl h
        · exact .inr ⟨e, List.mem_cons_self, rfl⟩
      · exact .inr ⟨e', List.mem_cons_of_mem e he', hname⟩
  exact (hfold [] h).resolve_left List.not_mem_nil

/-! ### Plain texts -/

/-- A text without the marks that end a rule, a declaration or a comment. -/
def IsPlain (cs : List Char) : Prop :=
  ∀ c ∈ cs, c ∉ ['\x7b', '\x7d', ';', '*']

instance (cs : List Char) : Decidable (IsPlain cs) :=
  inferInstanceAs (Decidable (∀ c ∈ cs, _))

theorem IsProperty.isPlain {property : List Char} (h : IsProperty property) : IsPlain property :=
  fun _ hc => (not_mark_of_isPropertyChar (h.isPropertyChar_of_mem hc)).2.1

/-- Declarations that are read back as they are printed. -/
structure IsDeclared (declarations : Declarations) : Prop where
  readable : IsReadable declarations
  plain : ∀ e ∈ declarations, IsPlain e.2.toList

/-! ### Blocks -/

/-- A declaration on a line of its own. -/
def declarationLine (e : String × String) : List Char :=
  "  ".toList ++ (printDeclaration e.1 e.2).toList ++ ['\n']

theorem mem_printDeclaration {property value : String} {c : Char}
    (h : c ∈ (printDeclaration property value).toList) :
    c ∈ property.toList ∨ c ∈ value.toList ∨ c ∈ [':', ' ', ';'] := by
  simp only [printDeclaration, String.toList_append, List.mem_append] at h
  obtain ((h | h) | h) | h := h
  · exact .inl h
  · exact .inr (.inr (by revert h; simp; rintro (rfl | rfl) <;> simp))
  · exact .inr (.inl h)
  · exact .inr (.inr (by revert h; simp; rintro rfl; simp))

theorem IsDeclared.not_mem_printDeclaration {declarations : Declarations}
    (h : IsDeclared declarations) {e : String × String} (he : e ∈ declarations) {c : Char}
    (hc : c ∈ ['\x7b', '\x7d', '*']) : c ∉ (printDeclaration e.1 e.2).toList := by
  have hmark : c ∈ ['\x7b', '\x7d', ';', '*'] := by
    revert hc
    simp only [List.mem_cons, List.not_mem_nil, or_false]
    rintro (rfl | rfl | rfl) <;> simp
  intro hmem
  obtain hmem | hmem | hmem := mem_printDeclaration hmem
  · exact (h.readable e he).1.isPlain c hmem hmark
  · exact h.plain e he c hmem hmark
  · revert hc hmem
    simp only [List.mem_cons, List.not_mem_nil, or_false]
    rintro (rfl | rfl | rfl) <;> decide

theorem finds_spaces (n : Nat) : Finds readDeclaration? (List.replicate n ' ') [] :=
  finds_blanks fun c hc => by
    rw [List.eq_of_mem_replicate hc]
    decide

theorem IsDeclared.finds {declarations : Declarations} (h : IsDeclared declarations)
    {e : String × String} (he : e ∈ declarations) :
    Finds readDeclaration? (printDeclaration e.1 e.2).toList [e] :=
  finds_printDeclaration (h.readable e he).1 (h.readable e he).2 fun hc =>
    h.plain e he _ hc (by decide)

theorem finds_lineEnd : Finds readDeclaration? ['\n'] [] :=
  finds_blanks (by decide)

/-- Declarations on lines of their own are found. -/
theorem IsDeclared.finds_lines {declarations : Declarations} (h : IsDeclared declarations) :
    Finds readDeclaration? (declarations.flatMap declarationLine) declarations := by
  have hline : ∀ e ∈ declarations, Finds readDeclaration? (declarationLine e) [e] := by
    intro e he
    exact ((finds_spaces 2).append (h.finds he)).append finds_lineEnd
  have := Finds.flatMap hline
  rwa [List.flatMap_singleton'] at this

theorem IsDeclared.not_mem_lines {declarations : Declarations} (h : IsDeclared declarations)
    {c : Char} (hc : c ∈ ['\x7b', '\x7d', '*']) : c ∉ declarations.flatMap declarationLine := by
  intro hmem
  obtain ⟨e, he, hmem⟩ := List.mem_flatMap.1 hmem
  simp only [declarationLine, List.mem_append] at hmem
  obtain (hmem | hmem) | hmem := hmem
  · revert hc hmem
    simp only [List.mem_cons, List.not_mem_nil, or_false]
    rintro (rfl | rfl | rfl) <;> decide
  · exact h.not_mem_printDeclaration he hc hmem
  · revert hc hmem
    simp only [List.mem_cons, List.not_mem_nil, or_false]
    rintro (rfl | rfl | rfl) <;> decide

/-! ### Rules -/

theorem flatMap_toList_lines (declarations : Declarations) :
    (declarations.map fun (p, v) => "  " ++ printDeclaration p v ++ "\n").flatMap String.toList
      = declarations.flatMap declarationLine := by
  have hline : declarationLine = fun e => ("  " ++ printDeclaration e.1 e.2 ++ "\n").toList := by
    funext e
    simp [declarationLine]
  rw [List.flatMap_map, hline]

theorem toList_printBlock (r : Rule) : r.printBlock.toList = r.selector.toList ++
    (" \x7b".toList ++ ('\n' :: r.declarations.flatMap declarationLine ++ ['\x7d'])) := by
  rw [Rule.printBlock]
  simp only [String.toList_append, String.toList_join, flatMap_toList_lines]
  simp

/-- The text of a rule that is printed as a block. -/
theorem isRuleText_printBlock {r : Rule} (h : IsDeclared r.declarations) :
    IsRuleText r r.printBlock.toList := by
  refine ⟨_, toList_printBlock r, finds_lineEnd.append h.finds_lines, fun hmem => ?_⟩
  obtain hmem | hmem := List.mem_cons.1 hmem
  · exact absurd hmem (by decide)
  · exact h.not_mem_lines (by decide) hmem

/-- The text of a rule, which may be on one line. -/
theorem isRuleText_print {r : Rule} (h : IsDeclared r.declarations) :
    IsRuleText r r.print.toList := by
  unfold Rule.print
  split
  · rename_i p v hdeclarations
    have he : (p, v) ∈ r.declarations := by simp [hdeclarations]
    refine ⟨' ' :: ((printDeclaration p v).toList ++ [' ']), by simp, ?_, fun hmem => ?_⟩
    · rw [hdeclarations]
      exact ((finds_spaces 1).append (h.finds he)).append (finds_spaces 1)
    · rw [List.mem_cons, List.mem_append, List.mem_singleton] at hmem
      obtain hmem | hmem | hmem := hmem
      · exact absurd hmem (by decide)
      · exact h.not_mem_printDeclaration he (by decide) hmem
      · exact absurd hmem (by decide)
  · exact isRuleText_printBlock h

/-- A rule is printed without stars. -/
theorem star_not_mem_printBlock {r : Rule} (h : IsDeclared r.declarations)
    (hselector : '*' ∉ r.selector.toList) : '*' ∉ r.printBlock.toList := by
  rw [toList_printBlock]
  have hlines : '*' ∉ r.declarations.flatMap declarationLine := h.not_mem_lines (by decide)
  simp [hselector, hlines]

theorem star_not_mem_print {r : Rule} (h : IsDeclared r.declarations)
    (hselector : '*' ∉ r.selector.toList) : '*' ∉ r.print.toList := by
  unfold Rule.print
  split
  · rename_i p v hdeclarations
    have hdeclaration : '*' ∉ (printDeclaration p v).toList :=
      h.not_mem_printDeclaration (e := (p, v)) (by simp [hdeclarations]) (by decide)
    simp [hselector, hdeclaration]
  · exact star_not_mem_printBlock h hselector

/-! ### Sections -/

/-- Texts on lines of their own. -/
def unlines (lines : List String) : List Char :=
  lines.flatMap fun line => line.toList ++ ['\n']

theorem unlines_append (lines lines' : List String) :
    unlines (lines ++ lines') = unlines lines ++ unlines lines' :=
  List.flatMap_append

theorem unlines_cons (line : String) (lines : List String) :
    unlines (line :: lines) = line.toList ++ ['\n'] ++ unlines lines :=
  List.flatMap_cons

theorem intercalate_append_newline (line : String) (lines : List String) :
    ("\n".intercalate (line :: lines)).toList ++ ['\n'] = unlines (line :: lines) := by
  rw [String.toList_intercalate]
  induction lines generalizing line with
  | nil => simp [unlines]
  | cons next lines ih =>
    rw [unlines_cons, ← ih next, List.map_cons, List.map_cons, List.intercalate_cons_cons]
    simp

theorem unlines_intercalate (groups : List (List String)) :
    unlines (List.intercalate [""] groups) = List.intercalate ['\n'] (groups.map unlines) := by
  induction groups with
  | nil => rfl
  | cons group groups ih =>
    cases groups with
    | nil => simp
    | cons next groups =>
      rw [List.intercalate_cons_cons, unlines_append, unlines_append, ih, List.map_cons,
        List.map_cons, List.map_cons, List.intercalate_cons_cons]
      rfl

/-- The lines of a group without its heading. -/
def groupText (group : String × Declarations) : List Char :=
  "  ".toList ++ ['\n'] ++ group.2.flatMap declarationLine

/-- The rule that declares design variables, as it is printed. -/
def rootRule (properties : Declarations) : Rule :=
  ⟨":root", ungrouped (byCategory properties)⟩

/-- The declarations of design variables without the headings of groups. -/
def rootText (properties : Declarations) : List Char :=
  ":root".toList ++ (" \x7b".toList ++
    ('\n' :: List.intercalate ['\n'] ((byCategory properties).map groupText) ++ ['\x7d']))

/-- The sections of a stylesheet without comments. -/
def sectionText (sheet : Sheet) : List Char :=
  (if sheet.properties.isEmpty then [] else '\n' :: rootText sheet.properties ++ ['\n'])
    ++ (if sheet.utilities.isEmpty then []
        else '\n' :: '\n' :: unlines (sheet.utilities.map Rule.printBlock))
    ++ if sheet.rules.isEmpty then [] else '\n' :: '\n' :: unlines (sheet.rules.map Rule.print)

/-- A stylesheet whose parts are read as they are printed. -/
structure IsPrinted (sheet : Sheet) : Prop where
  imports : ∀ directive ∈ sheet.imports, IsDirective directive.toList
  properties : IsDeclared sheet.properties
  rules : ∀ r ∈ sheet.utilities ++ sheet.rules,
    IsDeclared r.declarations ∧ IsPlain r.selector.toList

theorem leaves_unlines {lines : List String} (h : ∀ line ∈ lines, '*' ∉ line.toList) :
    Leaves readComment? (unlines lines) (unlines lines) :=
  Leaves.flatMap fun line hline => leaves_line (h line hline)

theorem leaves_lineEnd : Leaves readComment? ['\n'] ['\n'] :=
  leaves_line List.not_mem_nil

/-- Of declarations all is left. -/
theorem IsDeclared.leaves_lines {properties declarations : Declarations} (h : IsDeclared properties)
    (hsub : ∀ d ∈ declarations, d ∈ properties) :
    Leaves readComment? (unlines (declarations.map fun (p, v) => "  " ++ printDeclaration p v))
      (declarations.flatMap declarationLine) := by
  rw [unlines, List.flatMap_map]
  refine Leaves.flatMap fun d hd => ?_
  have hdeclaration : '*' ∉ (printDeclaration d.1 d.2).toList :=
    h.not_mem_printDeclaration (hsub d hd) (by decide)
  have := leaves_line (x := "  ".toList ++ (printDeclaration d.1 d.2).toList)
    (by simp [hdeclaration])
  simpa [declarationLine] using this

/-- Of a group all is left but its heading. -/
theorem leaves_categoryLines {properties : Declarations} (h : IsDeclared properties)
    {group : String × Declarations} (hgroup : group ∈ byCategory properties) :
    Leaves readComment? (unlines (categoryLines group)) (groupText group) := by
  obtain ⟨e, he, hname⟩ := exists_category hgroup
  have hcategory : ∀ c ∈ group.1.toList, isPropertyChar c = true := by
    intro c hc
    rw [hname, category, String.toList_ofList] at hc
    exact (h.readable e he).1.isPropertyChar_of_mem
      ((List.dropWhile_suffix _).subset ((List.takeWhile_prefix _).subset hc))
  have hstar : '*' ∉ uppercase (group.1.toList.take 1) ++ group.1.toList.drop 1 := by
    intro hmem
    obtain hmem | hmem := List.mem_append.1 hmem
    · cases hlist : group.1.toList with
      | nil =>
        rw [hlist] at hmem
        exact absurd hmem (by decide)
      | cons c rest =>
        rw [hlist] at hmem
        exact (not_mark_of_isPropertyChar (hcategory c (by simp [hlist]))).2.2 hmem
    · exact absurd (hcategory _ (List.mem_of_mem_drop hmem)) (by decide)
  have hheading : (categoryHeading group.1).toList ++ ['\n']
      = "  ".toList ++ '/' :: '*' :: ((' ' :: (uppercase (group.1.toList.take 1)
          ++ group.1.toList.drop 1) ++ [' ']) ++ ['*', '/']) ++ ['\n'] := by
    simp [categoryHeading]
  rw [categoryLines, unlines_cons, hheading, groupText]
  refine (leaves_commentLine (by decide) (by simpa using hstar)).append (h.leaves_lines fun d hd => ?_)
  exact (perm_byCategory properties).mem_iff.1 (List.mem_flatMap.2 ⟨group, hgroup, hd⟩)

/-- Of the declarations of design variables all is left but the headings of groups. -/
theorem leaves_propertyLines {properties : Declarations} (h : IsDeclared properties) :
    Leaves readComment? (unlines (propertyLines properties)) (rootText properties ++ ['\n']) := by
  have hgroups := Leaves.intercalate leaves_lineEnd
    fun _ hgroup => leaves_categoryLines h hgroup
  have hopen : Leaves readComment? (unlines [":root \x7b"]) (unlines [":root \x7b"]) :=
    leaves_unlines (by decide)
  have hclose : Leaves readComment? (unlines ["\x7d"]) (unlines ["\x7d"]) :=
    leaves_unlines (by decide)
  have hopenLine : unlines [":root \x7b"] = ":root".toList ++ " \x7b".toList ++ ['\n'] := rfl
  have hcloseLine : unlines ["\x7d"] = ['\x7d'] ++ ['\n'] := rfl
  have hprinted : unlines (propertyLines properties) = unlines [":root \x7b"]
      ++ List.intercalate ['\n'] ((byCategory properties).map fun g => unlines (categoryLines g))
      ++ unlines ["\x7d"] := by
    rw [propertyLines, ← List.singleton_append, unlines_append, unlines_append,
      unlines_intercalate, List.map_map, Function.comp_def]
  have hleft : rootText properties ++ ['\n'] = unlines [":root \x7b"]
      ++ List.intercalate ['\n'] ((byCategory properties).map groupText) ++ unlines ["\x7d"] := by
    rw [hopenLine, hcloseLine]
    delta rootText
    simp only [List.append_assoc, List.cons_append, List.nil_append]
  rw [hleft, hprinted]
  exact (hopen.append hgroups).append hclose

/-- Of rules under a comment all is left but the comment. -/
theorem leaves_ruleLines (comment : List Char) (hcomment : '*' ∉ comment) {rules : List String}
    (h : ∀ r ∈ rules, '*' ∉ r.toList) :
    Leaves readComment? (unlines (sectionLines
        (ruleLines (String.ofList ('/' :: '*' :: (comment ++ ['*', '/']))) rules)))
      (if rules.isEmpty then [] else '\n' :: '\n' :: unlines rules) := by
  cases rules with
  | nil => exact Leaves.nil
  | cons r rules =>
    have := (leaves_lineEnd.append (leaves_commentLine (List.forall_mem_nil _) hcomment)).append
      (leaves_unlines h)
    simpa [sectionLines, ruleLines, unlines] using this

theorem toList_print (sheet : Sheet) (heading : String) : (sheet.print heading).toList
    = unlines (heading :: sheet.imports)
      ++ unlines (sectionLines
          (if sheet.properties.isEmpty then [] else propertyLines sheet.properties))
      ++ unlines (sectionLines (ruleLines "/* Figma-specific utility classes */"
          (sheet.utilities.map Rule.printBlock)))
      ++ unlines (sectionLines (ruleLines "/* Custom classes for Figma variables */"
          (sheet.rules.map Rule.print))) := by
  have hnewline : "\n".toList = ['\n'] := rfl
  rw [print, String.toList_append, hnewline, List.cons_append, List.cons_append, List.cons_append,
    intercalate_append_newline, ← List.cons_append, ← List.cons_append, ← List.cons_append,
    unlines_append, unlines_append, unlines_append]

/-- What is left of a printed stylesheet without its comments. -/
theorem leaves_print {sheet : Sheet} (h : IsPrinted sheet) :
    Leaves readComment? (sheet.print heading).toList
      ('\n' :: (unlines sheet.imports ++ sectionText sheet)) := by
  have hheading : Leaves readComment? (heading.toList ++ ['\n']) ['\n'] :=
    leaves_commentLine (List.forall_mem_nil _)
      (show '*' ∉ " Auto-generated design tokens from Figma ".toList by decide)
  have himports : Leaves readComment? (unlines sheet.imports) (unlines sheet.imports) :=
    leaves_unlines fun d hd => (h.imports d hd).star
  have hroot : Leaves readComment? (unlines (sectionLines
        (if sheet.properties.isEmpty then [] else propertyLines sheet.properties)))
      (if sheet.properties.isEmpty then [] else '\n' :: rootText sheet.properties ++ ['\n']) := by
    split
    · exact Leaves.nil
    · exact leaves_lineEnd.append (leaves_propertyLines h.properties)
  have hstar : ∀ r ∈ sheet.utilities ++ sheet.rules, '*' ∉ r.selector.toList := fun r hr hc =>
    (h.rules r hr).2 _ hc (by decide)
  have hutilities := leaves_ruleLines " Figma-specific utility classes ".toList
    (by decide) (List.forall_mem_map.2 fun r hr =>
      star_not_mem_printBlock (h.rules r (List.mem_append_left _ hr)).1
        (hstar r (List.mem_append_left _ hr)))
  have hrules := leaves_ruleLines " Custom classes for Figma variables ".toList
    (by decide) (List.forall_mem_map.2 fun r hr =>
      star_not_mem_print (h.rules r (List.mem_append_right _ hr)).1
        (hstar r (List.mem_append_right _ hr)))
  rw [List.isEmpty_map] at hutilities hrules
  have := (((hheading.append himports).append hroot).append hutilities).append hrules
  rw [toList_print, unlines_cons, sectionText]
  simpa using this

/-! ### Sections as rules -/

/-- The declarations of design variables are the text of a rule. -/
theorem isRuleText_rootText {properties : Declarations} (h : IsDeclared properties) :
    IsRuleText (rootRule properties) (rootText properties) := by
  have hsub : ∀ {group : String × Declarations}, group ∈ byCategory properties →
      IsDeclared group.2 := by
    intro group hgroup
    have hmem : ∀ e ∈ group.2, e ∈ properties := fun e he =>
      (perm_byCategory properties).mem_iff.1 (List.mem_flatMap.2 ⟨group, hgroup, he⟩)
    exact ⟨fun e he => h.readable e (hmem e he), fun e he => h.plain e (hmem e he)⟩
  have hgroup : ∀ group ∈ byCategory properties,
      Finds readDeclaration? (groupText group) group.2 := fun group hgroup =>
    ((finds_spaces 2).append finds_lineEnd).append (hsub hgroup).finds_lines
  refine ⟨_, rfl, finds_lineEnd.append (Finds.intercalate finds_lineEnd hgroup), fun hmem => ?_⟩
  obtain hmem | hmem := List.mem_cons.1 hmem
  · exact absurd hmem (by decide)
  · obtain hmem | ⟨text, htext, hmem⟩ := mem_intercalate hmem
    · exact absurd hmem (by decide)
    · obtain ⟨group, hgroup, rfl⟩ := List.mem_map.1 htext
      rw [groupText, List.mem_append] at hmem
      obtain hmem | hmem := hmem
      · exact absurd hmem (by decide)
      · exact (hsub hgroup).not_mem_lines (by decide) hmem

/-- The rules of a stylesheet in the order in which they are printed. -/
def printedRules (sheet : Sheet) : List Rule :=
  (if sheet.properties.isEmpty then [] else [rootRule sheet.properties])
    ++ sheet.utilities ++ sheet.rules

theorem findsRules_lineEnd : FindsRules ['\n'] [] :=
  findsRules_of_blank (by decide)

/-- Rules on lines of their own are read as rules. -/
theorem findsRules_unlines {text : Rule → String} {rules : List Rule}
    (hrules : ∀ r ∈ rules, IsRule r) (htext : ∀ r ∈ rules, IsRuleText r (text r).toList) :
    FindsRules (if rules.isEmpty then [] else '\n' :: '\n' :: unlines (rules.map text)) rules := by
  have hlines : FindsRules (unlines (rules.map text)) rules := by
    have := FindsRules.flatMap fun r hr =>
      (findsRules_of_isRuleText (hrules r hr) (htext r hr)).append findsRules_lineEnd
    rw [unlines, List.flatMap_map]
    simpa using this
  split
  · rename_i hnil
    rw [List.isEmpty_iff.1 hnil]
    exact findsRules_of_blank (List.forall_mem_nil _)
  · exact (findsRules_lineEnd.append findsRules_lineEnd).append hlines

/-- The sections of a stylesheet are read as rules. -/
theorem findsRules_sectionText {sheet : Sheet} (h : IsPrinted sheet)
    (hnodup : sheet.properties.keys.Nodup) (hrules : ∀ r ∈ sheet.utilities ++ sheet.rules, IsRule r) :
    FindsRules (sectionText sheet) (printedRules sheet) := by
  have hroot : FindsRules
      (if sheet.properties.isEmpty then [] else '\n' :: rootText sheet.properties ++ ['\n'])
      (if sheet.properties.isEmpty then [] else [rootRule sheet.properties]) := by
    split
    · exact findsRules_of_blank (List.forall_mem_nil _)
    · have hkeys : (rootRule sheet.properties).declarations.keys.Nodup :=
        ((perm_byCategory sheet.properties).map Prod.fst).nodup_iff.2 hnodup
      have hrule : IsRule (rootRule sheet.properties) :=
        ⟨show ∀ c ∈ ":root".toList, _ by decide, show trim ":root".toList = ":root".toList by decide, hkeys⟩
      exact (findsRules_lineEnd.append (findsRules_of_isRuleText hrule
        (isRuleText_rootText h.properties))).append findsRules_lineEnd
  have hutilities := findsRules_unlines (fun r hr => hrules r (List.mem_append_left _ hr))
    fun r hr => isRuleText_printBlock (h.rules r (List.mem_append_left _ hr)).1
  have hothers := findsRules_unlines (fun r hr => hrules r (List.mem_append_right _ hr))
    fun r hr => isRuleText_print (h.rules r (List.mem_append_right _ hr)).1
  exact (hroot.append hutilities).append hothers

end Sheet

end MarkupTidy
