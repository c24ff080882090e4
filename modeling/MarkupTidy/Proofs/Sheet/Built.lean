import MarkupTidy.Proofs.Number.DecimalText
import MarkupTidy.Proofs.Sheet.RoundTrip
import MarkupTidy.Proofs.Variable.Declared

/-! # Reading the stylesheet of a component

A stylesheet that is built from design variables, generated classes and typefaces is read back where
its names and values keep clear of the marks of the syntax and it is legible.

* `isDirective_fontImport`: the import of typefaces is read as one directive.
* `isWellFormed_build`: what is built keeps clear of the marks where its names and values do.
* `readsBack_build_iff`: when a built stylesheet is read back. -/

namespace MarkupTidy.Sheet

open MarkupTidy.Text MarkupTidy.Markup MarkupTidy.VariableTable

/-! ### The import of typefaces -/

/-- A character of a query: no parenthesis that would end a directive, and no star. -/
def IsQueryText (cs : List Char) : Prop :=
  ∀ c ∈ cs, c ∉ [')', '*']

instance (cs : List Char) : Decidable (IsQueryText cs) :=
  inferInstanceAs (Decidable (∀ c ∈ cs, _))

theorem IsQueryText.append {x y : List Char} (hx : IsQueryText x) (hy : IsQueryText y) :
    IsQueryText (x ++ y) :=
  List.forall_mem_append.2 ⟨hx, hy⟩

theorem isQueryText_hexCapital (n : Nat) : IsQueryText [Url.hexCapital n] := by
  have hdigit : ∀ n < 10, IsQueryText [Url.hexCapital n] := by decide
  by_cases hn : n < 10
  · exact hdigit n hn
  · intro c hc hmem
    rw [List.mem_singleton] at hc
    have hlow : c.toNat = 0x29 ∨ c.toNat = 0x2A := by
      simp only [List.mem_cons, List.not_mem_nil, or_false] at hmem
      obtain rfl | rfl := hmem
      · exact .inl rfl
      · exact .inr rfl
    have hval : c.toNat = 0x37 + n ∨ c.toNat = 0 := by
      rw [hc, Url.hexCapital, if_neg hn, Char.ofNat]
      by_cases hvalid : (0x37 + n).isValidChar
      · rw [dif_pos hvalid]
        exact .inl rfl
      · rw [dif_neg hvalid]
        exact .inr rfl
    omega

/-- A text in form encoding fits into a query. -/
theorem isQueryText_formEncode (cs : List Char) : IsQueryText (Url.formEncode cs) := by
  intro c hc
  obtain ⟨d, -, hc⟩ := List.mem_flatMap.1 hc
  split at hc
  · rename_i hd
    obtain rfl := List.mem_singleton.1 hc
    intro hmem
    simp only [List.mem_cons, List.not_mem_nil, or_false] at hmem
    obtain rfl | rfl := hmem <;> exact absurd hd (by decide)
  · split at hc
    · obtain rfl := List.mem_singleton.1 hc
      decide
    · obtain ⟨b, -, hc⟩ := List.mem_flatMap.1 hc
      simp only [Url.escapeByte, List.mem_cons, List.not_mem_nil, or_false] at hc
      obtain rfl | hc | hc := hc
      · decide
      · exact isQueryText_hexCapital _ c (List.mem_singleton.2 hc)
      · exact isQueryText_hexCapital _ c (List.mem_singleton.2 hc)

theorem isQueryText_int (n : Int) : IsQueryText (toString n).toList := by
  intro c hc hmem
  have hnumber := isNumberText_int n c hc
  simp only [List.mem_cons, List.not_mem_nil, or_false] at hmem
  obtain rfl | rfl := hmem <;> exact absurd hnumber (by decide)

theorem isQueryText_intercalate {separator : Char} (hseparator : IsQueryText [separator])
    {parts : List (List Char)} (h : ∀ part ∈ parts, IsQueryText part) :
    IsQueryText (List.intercalate [separator] parts) := by
  intro c hc
  obtain rfl | ⟨part, hpart, hc⟩ := mem_intercalate hc
  · exact hseparator c List.mem_cons_self
  · exact h part hpart c hc

theorem isQueryText_familyParameter (family : String) (weights : List Int) :
    IsQueryText (familyParameter family weights) := by
  have hweights : IsQueryText (List.intercalate [';'] (weights.map fun w => (toString w).toList)) :=
    isQueryText_intercalate (by decide) (List.forall_mem_map.2 fun w _ => isQueryText_int w)
  exact (((show IsQueryText "family=".toList by decide).append
    (isQueryText_formEncode _)).append (by decide)).append hweights

theorem isQueryText_families (uses : List (String × List Int)) : IsQueryText
    (List.intercalate ['&'] (uses.map fun (family, weights) => familyParameter family weights)) :=
  isQueryText_intercalate (by decide) (List.forall_mem_map.2 fun e _ =>
    isQueryText_familyParameter e.1 e.2)

/-- A directive is read as one, whatever it imports. -/
theorem isDirective_of_isQueryText {query : List Char} (h : IsQueryText query) :
    IsDirective ("@import url(".toList ++ query ++ [')', ';']) := by
  refine ⟨by simp, fun hmem => ?_, fun y => ?_⟩
  · obtain hmem | hmem := List.mem_append.1 hmem
    · obtain hmem | hmem := List.mem_append.1 hmem
      · exact absurd hmem (by decide)
      · exact h _ hmem (by decide)
    · exact absurd hmem (by decide)
  · have hclose : ')' ∉ query := fun hmem => h _ hmem (by decide)
    have hafter : afterImport? ("@import url(".toList ++ query ++ [')', ';'] ++ y) = some y := by
      have hsplit : "@import url(".toList ++ query ++ [')', ';'] ++ y
          = "@import".toList ++ (' ' :: ("url(".toList ++ (query ++ ')' :: ';' :: y))) := by
        simp
      have hblanks : afterBlanks? (' ' :: ("url(".toList ++ (query ++ ')' :: ';' :: y)))
          = some ("url(".toList ++ (query ++ ')' :: ';' :: y)) := by
        rw [afterBlanks?, if_pos (by decide)]
        rfl
      unfold afterImport?
      rw [hsplit, afterText?_eq_some.2 rfl, Option.bind_some, hblanks, Option.bind_some,
        afterText?_eq_some.2 rfl, Option.bind_some, cutAt?_append_cons hclose]
      rfl
    rw [readImport?, hafter, Option.map_some, List.length_append, Nat.add_sub_cancel, List.take_left]

theorem isDirective_fontImport {fonts : List FontUse} {directive : String}
    (h : fontImport? fonts = some directive) : IsDirective directive.toList := by
  unfold fontImport? at h
  split at h
  · exact absurd h (by simp)
  · have hstart : IsQueryText ('\'' :: (fontService ++ ['?'])) := by decide
    have hdisplay : IsQueryText "&display=swap'".toList := by decide
    have := isDirective_of_isQueryText
      ((hstart.append (isQueryText_families (familyWeights fonts))).append hdisplay)
    obtain rfl := Option.some.inj h
    rw [String.toList_ofList]
    simpa using this

/-! ### What is built -/

/-- Names and values that keep clear of the marks of the syntax: the values of variables, and all that
is printed of a generated class but its properties. -/
structure ArePlain (design : VariableTable) (classes : ClassTable) : Prop where
  literals : ∀ entry ∈ design.entries, ∀ literal, entry.2 = .literal literal →
    IsPlain literal.toList
  names : ∀ e ∈ classes.entries, IsPlain e.name.toList
  values : ∀ e ∈ classes.entries, ∀ text ∈ e.customProperty?.toList ++ e.fallback?.toList ++
    e.value?.toList, IsPlain text.toList

theorem IsPlain.append {x y : List Char} (hx : IsPlain x) (hy : IsPlain y) : IsPlain (x ++ y) :=
  List.forall_mem_append.2 ⟨hx, hy⟩

theorem nodup_keys_properties (design : VariableTable) : design.properties.keys.Nodup := by
  have hfold : ∀ (entries : List (String × VariableValue)) (declared : OrderedMap String String),
      declared.keys.Nodup → (entries.foldl declare declared).keys.Nodup := by
    intro entries
    induction entries with
    | nil => exact fun _ h => h
    | cons entry entries ih =>
      intro declared h
      refine ih _ ?_
      unfold declare
      split
      · exact h
      · exact OrderedMap.nodup_keys_insert h _ _
  exact hfold _ _ List.nodup_nil

/-- A declared value is that of a literal. -/
theorem exists_literal_of_mem_properties {design : VariableTable} {e : String × String}
    (h : e ∈ design.properties) : ∃ entry ∈ design.entries, ∃ literal, entry.2 = .literal literal ∧
      e.2 = declaredText (Variable.customProperty entry.1.toList) literal := by
  have hfold : ∀ (entries : List (String × VariableValue)) (declared : OrderedMap String String),
      e ∈ entries.foldl declare declared → e ∈ declared ∨
        ∃ entry ∈ entries, ∃ literal, entry.2 = .literal literal ∧
          e.2 = declaredText (Variable.customProperty entry.1.toList) literal := by
    intro entries
    induction entries with
    | nil => exact fun _ h => .inl h
    | cons entry entries ih =>
      intro declared h
      obtain h | ⟨other, hother, hliteral⟩ := ih _ h
      · unfold declare at h
        split at h
        · exact .inl h
        · rename_i literal hliteral
          obtain h | rfl := OrderedMap.mem_insert h
          · exact .inl h
          · exact .inr ⟨entry, List.mem_cons_self, literal, hliteral, rfl⟩
      · exact .inr ⟨other, List.mem_cons_of_mem entry hother, hliteral⟩
  exact (hfold _ _ h).resolve_left List.not_mem_nil

theorem isPlain_declaredText {property : List Char} {literal : String}
    (h : IsPlain literal.toList) : IsPlain (declaredText property literal).toList := by
  obtain heq | ⟨heq, -⟩ := declaredText_cases property literal
  · rwa [heq]
  · rw [heq, String.toList_append]
    exact h.append (by decide)

/-- The value of a class keeps clear of the marks where its parts do. -/
theorem isPlain_declaredValue {e : ClassEntry}
    (h : ∀ text ∈ e.customProperty?.toList ++ e.fallback?.toList ++ e.value?.toList,
      IsPlain text.toList) : IsPlain e.declaredValue.toList := by
  have hgetD : ∀ {text? : Option String}, (∀ text ∈ text?.toList, IsPlain text.toList) →
      IsPlain (text?.getD "").toList := by
    intro text? htext
    cases text? with
    | none => decide
    | some text => exact htext text (by simp)
  have hfallback : IsPlain (e.fallback?.getD "").toList :=
    hgetD fun text htext => h text (by simp [Option.mem_toList.1 htext])
  unfold ClassEntry.declaredValue
  split
  · exact hgetD fun text htext => h text (by simp [Option.mem_toList.1 htext])
  · rename_i property hproperty
    have hname : IsPlain property.toList := h property (by simp [hproperty])
    dsimp only
    split
    · simp only [String.toList_append]
      exact (IsPlain.append (by decide) hname).append (by decide)
    · simp only [String.toList_append]
      exact (((IsPlain.append (by decide) hname).append (by decide)).append hfallback).append
        (by decide)

/-- What is built keeps clear of the marks where its names and values do. -/
theorem isWellFormed_build {design : VariableTable} {classes : ClassTable}
    (h : ArePlain design classes) (fonts : List FontUse) :
    IsWellFormed (build design classes fonts) := by
  have htools : ∀ r ∈ toolUtilities, IsPlain r.selector.toList ∧
      r.declarations.keys.Nodup ∧ ∀ e ∈ r.declarations, IsPlain e.2.toList := by
    decide
  refine ⟨fun directive hd => ?_, nodup_keys_properties design, fun e he => ?_, fun r hr => ?_⟩
  · exact isDirective_fontImport (Option.mem_toList.1 hd)
  · obtain ⟨entry, hentry, literal, hliteral, heq⟩ := exists_literal_of_mem_properties he
    rw [heq]
    exact isPlain_declaredText (h.literals entry hentry literal hliteral)
  · obtain hr | hr := List.mem_append.1 hr
    · exact htools r hr
    · obtain ⟨e, he, rfl⟩ := List.mem_map.1 hr
      refine ⟨?_, OrderedMap.nodup_keys_ofEntries _, fun d hd => ?_⟩
      · exact (String.toList_append (s := ".") ▸ IsPlain.append (by decide) (h.names e he))
      · obtain ⟨property, -, rfl⟩ := List.mem_map.1 (OrderedMap.mem_ofEntries hd)
        exact isPlain_declaredValue (h.values e he)

/-! ### What is read back -/

/-- A generated class whose rule can be read back. -/
structure IsReadableEntry (e : ClassEntry) : Prop where
  ne_nil : e.properties ≠ []
  properties : ∀ property ∈ e.properties, IsProperty property.toList
  value : trim e.declaredValue.toList = e.declaredValue.toList
  name : trimRight e.name.toList = e.name.toList
  ne_tool : isToolSelector ("." ++ e.name) = false

theorem trim_selector_iff (name : String) :
    trim ("." ++ name).toList = ("." ++ name).toList ↔ trimRight name.toList = name.toList := by
  have htext : ("." ++ name).toList = '.' :: name.toList := String.toList_append
  have hdot : isBlank '.' = false := by decide
  rw [htext, trim, trimLeft_cons_of_solid hdot]
  have := trimRight_append_cons hdot [] name.toList
  rw [List.nil_append, List.nil_append] at this
  rw [this, List.cons.injEq]
  exact and_iff_right rfl

/-- The rule of a class declares the properties of the class, all with one value. -/
theorem mem_declarations_classRule {e : ClassEntry} {d : String × String} :
    d ∈ (classRule e).declarations ↔ d.1 ∈ e.properties ∧ d.2 = e.declaredValue := by
  constructor
  · intro hd
    obtain ⟨property, hproperty, rfl⟩ := List.mem_map.1 (OrderedMap.mem_ofEntries hd)
    exact ⟨hproperty, rfl⟩
  · rintro ⟨hproperty, hvalue⟩
    have hkey : d.1 ∈ (classRule e).declarations.keys :=
      OrderedMap.mem_keys_ofEntries.2 (by simpa [ClassEntry.declarations] using hproperty)
    obtain ⟨⟨key, value⟩, hentry, hname⟩ := List.mem_map.1 hkey
    obtain ⟨_, -, heq⟩ := List.mem_map.1 (OrderedMap.mem_ofEntries hentry)
    obtain ⟨-, rfl⟩ := Prod.mk.inj heq
    rwa [show d = (key, e.declaredValue) from Prod.ext hname.symm hvalue]

/-- The rule of a class is legible, and none of the design tool, exactly if the class can be read
back. -/
theorem isReadableEntry_iff (e : ClassEntry) : IsReadableEntry e ↔
    IsLegibleRule (classRule e) ∧ isToolSelector (classRule e).selector = false := by
  constructor
  · intro h
    refine ⟨⟨?_, fun d hd => ?_, (trim_selector_iff e.name).2 h.name, ?_⟩, h.ne_tool⟩
    · obtain ⟨property, hproperty⟩ := List.exists_mem_of_ne_nil _ h.ne_nil
      exact List.ne_nil_of_mem
        (mem_declarations_classRule (d := (property, e.declaredValue)).2 ⟨hproperty, rfl⟩)
    · obtain ⟨hproperty, heq⟩ := mem_declarations_classRule.1 hd
      rw [heq]
      exact ⟨h.properties _ hproperty, h.value⟩
    · intro heq
      have := congrArg (fun s : String => s.toList.head?) heq
      simp [classRule] at this
  · rintro ⟨h, htool⟩
    obtain ⟨d, hd⟩ := List.exists_mem_of_ne_nil _ h.ne_nil
    obtain ⟨hproperty, heq⟩ := mem_declarations_classRule.1 hd
    refine ⟨List.ne_nil_of_mem hproperty, fun property hp => ?_, ?_,
      (trim_selector_iff e.name).1 h.trim, htool⟩
    · exact (h.declarations (property, e.declaredValue) (mem_declarations_classRule.2 ⟨hp, rfl⟩)).1
    · rw [← heq]
      exact (h.declarations d hd).2

/-- A built stylesheet is legible exactly if its variables and classes can be read back. -/
theorem isLegible_build_iff (design : VariableTable) (classes : ClassTable) (fonts : List FontUse) :
    IsLegible (build design classes fonts) ↔
      IsReadable design.properties ∧ ∀ e ∈ classes.entries, IsReadableEntry e := by
  have htools : ∀ r ∈ toolUtilities, IsLegibleRule r ∧ isToolSelector r.selector = true := by
    have hall : ∀ r ∈ toolUtilities, r.declarations ≠ [] ∧ IsReadable r.declarations ∧
        trim r.selector.toList = r.selector.toList ∧ r.selector ≠ ":root" ∧
          isToolSelector r.selector = true := by
      decide
    intro r hr
    obtain ⟨hne, hdeclarations, htrim, hroot, htool⟩ := hall r hr
    exact ⟨⟨hne, hdeclarations, htrim, hroot⟩, htool⟩
  have hrules : (∀ r ∈ (build design classes fonts).rules,
        IsLegibleRule r ∧ isToolSelector r.selector = false) ↔
      ∀ e ∈ classes.entries, IsReadableEntry e := by
    rw [build, List.forall_mem_map]
    exact forall₂_congr fun e _ => (isReadableEntry_iff e).symm
  constructor
  · intro h
    exact ⟨h.properties, hrules.1 h.rules⟩
  · rintro ⟨hproperties, hentries⟩
    exact ⟨hproperties, htools, hrules.2 hentries⟩

end MarkupTidy.Sheet
