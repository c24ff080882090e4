import Mathlib.Data.List.Forall2
import MarkupTidy.Proofs.Sheet.Built
import MarkupTidy.Proofs.Utility.ClassAnswers

/-! # Rules of generated classes

From a token for which a class is asked to the rule of the class in the stylesheet.

* `Rule.IsFor`: a rule has the name of a class and declares what the class declares.
* `ClassRequest.name_ne_tool`, `ClassRequest.nodup_properties`: what is known of a class that a request
  wants.
* `ClassRequest.KeepOrder`, `ClassRequest.keepOrder`: requests only add to the table, and every class
  of the table has one rule. -/

namespace MarkupTidy

open MarkupTidy.Text

/-! ### Rules -/

/-- A rule of a class: its selector is the name of the class, and it declares what the class declares,
every property once. -/
structure Rule.IsFor (e : ClassEntry) (r : Rule) : Prop where
  selector : r.selector = "." ++ e.name
  nodup : r.declarations.keys.Nodup
  mem_iff : ∀ d, d ∈ r.declarations ↔ d ∈ e.declarations
  /-- The order is that of the class, if no property stands there twice. -/
  eq : e.properties.Nodup → r.declarations = e.declarations

namespace Sheet

theorem isFor_classRule (e : ClassEntry) : (classRule e).IsFor e where
  selector := rfl
  nodup := OrderedMap.nodup_keys_ofEntries _
  mem_iff d := by
    rw [mem_declarations_classRule, ClassEntry.declarations, List.mem_map]
    constructor
    · rintro ⟨hproperty, hvalue⟩
      exact ⟨d.1, hproperty, by rw [← hvalue]⟩
    · rintro ⟨property, hproperty, rfl⟩
      exact ⟨hproperty, rfl⟩
  eq h := by
    refine OrderedMap.ofEntries_eq_self ?_
    have hkeys : OrderedMap.keys e.declarations = e.properties := by
      simp [OrderedMap.keys, ClassEntry.declarations, Function.comp_def]
    rwa [hkeys]

theorem map_selector_rules (design : VariableTable) (classes : ClassTable) (fonts : List FontUse) :
    (build design classes fonts).rules.map Rule.selector
      = (classes.entries.map ClassEntry.name).map ("." ++ ·) := by
  rw [build, List.map_map, List.map_map]
  rfl

theorem dot_append_injective : Function.Injective fun name : String => "." ++ name := by
  intro name other h
  have hlist := congrArg String.toList h
  simp only [String.toList_append, List.append_right_inj] at hlist
  exact String.toList_injective hlist

/-- No two rules of generated classes have one selector. -/
theorem nodup_selectors_rules (design : VariableTable) {classes : ClassTable} (h : classes.IsKeyed)
    (fonts : List FontUse) : ((build design classes fonts).rules.map Rule.selector).Nodup := by
  rw [map_selector_rules]
  exact h.map dot_append_injective

/-- A selector is repeated only if a class has a name of the design tool. -/
theorem nodup_selectors_iff (design : VariableTable) {classes : ClassTable} (h : classes.IsKeyed)
    (fonts : List FontUse) :
    (((build design classes fonts).utilities ++ (build design classes fonts).rules).map
        Rule.selector).Nodup ↔
      ∀ e ∈ classes.entries, isToolSelector ("." ++ e.name) = false := by
  have htools : (toolUtilities.map Rule.selector).Nodup := by decide
  have hmem : ∀ selector, isToolSelector selector = false ↔
      selector ∉ toolUtilities.map Rule.selector := by
    intro selector
    rw [← Bool.not_eq_true, isToolSelector, List.any_eq_true, List.mem_map]
    simp only [decide_eq_true_eq]
  rw [List.map_append, List.nodup_append]
  constructor
  · rintro ⟨-, -, hdisjoint⟩ e he
    refine (hmem _).2 fun htool => hdisjoint _ htool ("." ++ e.name) ?_ rfl
    rw [map_selector_rules]
    exact List.mem_map_of_mem (List.mem_map_of_mem he)
  · intro hentries
    refine ⟨htools, nodup_selectors_rules design h fonts, fun selector hselector other hother heq => ?_⟩
    rw [map_selector_rules, List.map_map] at hother
    obtain ⟨e, he, rfl⟩ := List.mem_map.1 hother
    obtain rfl : selector = "." ++ e.name := heq
    exact (hmem _).1 (hentries e he) hselector

end Sheet

namespace ClassRequest

/-! ### Classes that are asked for -/

section
variable {design : VariableTable} {r : ClassRequest} {e : ClassEntry}

/-- The name of a class begins with a utility, so it is none of the design tool. -/
theorem name_ne_tool (h : r.entryFor? design = some e) :
    Sheet.isToolSelector ("." ++ e.name) = false := by
  obtain ⟨t, -, hknown, hname, -⟩ := exists_target_of_entryFor? h
  have hbases : ∀ p ∈ ClassTarget.bases, ∀ rule ∈ toolUtilities,
      ¬ ('.' :: (p.1.toList ++ ['-'])) <+: rule.selector.toList := by
    decide +kernel
  refine Bool.eq_false_iff.2 fun htool => ?_
  obtain ⟨rule, hrule, hselector⟩ := List.any_eq_true.1 htool
  refine hbases _ hknown.mem_bases rule hrule ⟨t.label, ?_⟩
  rw [of_decide_eq_true hselector, hname, String.toList_append, ClassTarget.toList_className]
  simp

/-- A class sets no property twice. -/
theorem nodup_properties (h : r.entryFor? design = some e) : e.properties.Nodup := by
  obtain ⟨t, -, hknown, -, hmeaning⟩ := exists_target_of_entryFor? h
  have hbases : ∀ p ∈ ClassTarget.bases, p.2.Nodup := by decide +kernel
  have hproperties : e.properties = t.meaning.properties := congrArg ClassMeaning.properties hmeaning
  rw [hproperties]
  exact hbases _ hknown.mem_bases

end

/-! ### All requests -/

/-- The table after classes have been registered and requests have been answered. -/
def tableOf (design : VariableTable) (registered : List ClassEntry) (rs : List ClassRequest) :
    ClassTable :=
  tableFrom design (ClassTable.empty.registerAll registered).1 rs

/-- Requests that are answered from a table, in which some classes have been registered, only add to
it, and the stylesheet has one rule for every class, in the order of the table. -/
structure KeepOrder (design : VariableTable) (registered : List ClassEntry)
    (rs : List ClassRequest) : Prop where
  served : ∀ before r after, rs = before ++ r :: after →
    r.IsServed design (tableOf design registered before)
  /-- No request alters, removes or moves an entry. -/
  grows : ∀ before after, rs = before ++ after →
    (tableOf design registered before).entries <+: (tableOf design registered rs).entries
  /-- A class that has been handed out stands in the table at the end. -/
  stands : ∀ before r after, rs = before ++ r :: after → ∀ e,
    (r.serve design (tableOf design registered before)).1 = some (.synthesized e) →
      (tableOf design registered rs).get? e.name = some e
  stays : ∀ token, (placeholder token).IsUnanswered design → (shorthand token).IsUnanswered design →
    (CssVariables.TokenChange.of design token).token token = token ∧
      resolvedToken design token.toList = token.toList
  rules : ∀ fonts, List.Forall₂ Rule.IsFor (tableOf design registered rs).entries
    (Sheet.build design (tableOf design registered rs) fonts).rules
  selectors : ∀ fonts, ((Sheet.build design (tableOf design registered rs) fonts).rules.map
    Rule.selector).Nodup
  /-- Nor does a rule for a class of the design tool have the selector of another, unless a class was
  registered under its name. -/
  tools : ∀ fonts, (((Sheet.build design (tableOf design registered rs) fonts).utilities ++
      (Sheet.build design (tableOf design registered rs) fonts).rules).map Rule.selector).Nodup ↔
    ∀ e ∈ registered, Sheet.isToolSelector ("." ++ e.name) = false
  properties : ∀ e ∈ (tableOf design registered rs).entries, e ∈ registered ∨ e.properties.Nodup

theorem keepOrder (design : VariableTable) (registered : List ClassEntry) (rs : List ClassRequest) :
    KeepOrder design registered rs := by
  have hkeyed : (tableOf design registered rs).IsKeyed :=
    isKeyed_tableFrom (ClassTable.isKeyed_empty.registerAll registered) rs
  have hsplit : ∀ before after, rs = before ++ after → tableOf design registered rs
      = tableFrom design (tableOf design registered before) after := by
    rintro before after rfl
    exact tableFrom_append ..
  have hsource : ∀ e ∈ (tableOf design registered rs).entries,
      e ∈ registered ∨ ∃ r ∈ rs, r.entryFor? design = some e := by
    intro e he
    obtain he | hr := exists_request_of_mem_tableFrom he
    · exact .inl ((ClassTable.mem_of_mem_registerAll he).resolve_left List.not_mem_nil)
    · exact .inr hr
  refine ⟨fun _ r _ _ => isServed design _ r, fun before after h => ?_, fun before r after h e he => ?_,
    fun token => token_eq_of_isUnanswered, fun fonts => ?_, Sheet.nodup_selectors_rules design hkeyed,
    fun fonts => ?_, fun e he => ?_⟩
  · rw [hsplit before after h]
    exact entries_isPrefix_tableFrom ..
  · rw [hsplit before (r :: after) h, tableFrom_cons]
    exact get?_tableFrom_of_some ((isServed design _ r).hands e he).2 after
  · rw [Sheet.build, List.forall₂_map_right_iff]
    exact List.forall₂_same.2 fun e _ => Sheet.isFor_classRule e
  · rw [Sheet.nodup_selectors_iff design hkeyed]
    constructor
    · intro hentries e he
      -- the name of a registered class stands in the table, though maybe for another class
      obtain ⟨first, hfirst⟩ := ClassTable.exists_get?_registerAll (t := .empty) he
      have hend : (tableOf design registered rs).get? e.name = some first :=
        get?_tableFrom_of_some hfirst rs
      rw [← ClassTable.name_of_get? hend]
      exact hentries first (ClassTable.mem_of_get? hend)
    · intro hregistered e he
      obtain he | ⟨r, -, hentry⟩ := hsource e he
      · exact hregistered e he
      · exact name_ne_tool hentry
  · obtain he | ⟨r, -, hentry⟩ := hsource e he
    · exact .inl he
    · exact .inr (nodup_properties hentry)

example : (tableOf .empty [] [.placeholder "p-[var(--a,1px)]", .shorthand "border-[0px_0px_2px]",
      .placeholder "p-[var(--a,2px)]", .placeholder "flex"]).entries
    = [⟨"p-a", ["padding"], some "--a", some "1px", none⟩,
      ⟨"border-w-0-0-2", ["border-width"], none, none, some "0px 0px 2px"⟩] := by
  decide +kernel

end ClassRequest

end MarkupTidy
