import MarkupTidy.Proofs.Text.Search
import MarkupTidy.Utility.Resolution

/-! # Names of generated classes

A generated class is named after a utility and a variable, or after the widths of a border.  The
name does not always tell what the class is for: some pairs of targets have one name and two
meanings.

* `ClassTarget`: what a class is asked for; `ClassTarget.className` and `ClassTarget.meaning`.
* `ClassTarget.className_eq_iff`: the targets that share a name.
* `ClassTarget.Clash`: the targets that share a name and do not mean the same, as
  `ClassTarget.clash_iff` says. -/

namespace MarkupTidy

open MarkupTidy.Text MarkupTidy.Variable

/-- What a class does: the properties that it sets, and the custom property or the value that it
gives them. -/
structure ClassMeaning where
  properties : List String
  customProperty? : Option String
  value? : Option String
deriving DecidableEq, Repr

/-- What an entry does, its fallback apart. -/
def ClassEntry.meaning (e : ClassEntry) : ClassMeaning :=
  ⟨e.properties, e.customProperty?, e.value?⟩

/-- What a class is asked for: to give the properties of a utility the value of a variable, or to
give a border literal widths. -/
inductive ClassTarget where
  | bound (base : String) (properties : List String) (name : List Char)
  | widths (widths : List (List Char))
deriving DecidableEq, Repr

namespace ClassTarget

/-- What the name of the class begins with. -/
def base : ClassTarget → String
  | bound base _ _ => base
  | widths _ => "border-w"

/-- What the name of the class ends in. -/
def label : ClassTarget → List Char
  | bound _ _ name => name
  | widths ws => List.intercalate ['-'] (ws.map widthName)

/-- The name of the class. -/
def className (t : ClassTarget) : String :=
  t.base ++ "-" ++ String.ofList t.label

/-- What the class is to do. -/
def meaning : ClassTarget → ClassMeaning
  | bound _ properties name => ⟨properties, some (String.ofList ('-' :: '-' :: name)), none⟩
  | widths ws => ⟨["border-width"], none, some (String.ofList (List.intercalate [' '] ws))⟩

/-- The beginnings of names that go on with a word to another beginning. -/
def longerBases : List (String × String) :=
  [("gap", "x"), ("gap", "y"), ("text", "size"), ("border", "w")]

/-- The variable of the first begins with a word that belongs to the utility of the second, as
`--x-a` under `gap` and `--a` under `gap-x`. -/
def Overlaps (t t' : ClassTarget) : Prop :=
  ∃ p ∈ longerBases, t.base = p.1 ∧ t'.base = p.1 ++ "-" ++ p.2 ∧
    t.label = p.2.toList ++ '-' :: t'.label

/-- The first is a border width that is bound to a variable whose name reads like the widths of the
second. -/
def ReadsAsWidths : ClassTarget → ClassTarget → Prop
  | bound base _ name, widths ws => base = "border-w" ∧ name = (widths ws).label
  | _, _ => False

/-- Widths of the same numbers that do not have the same units. -/
def DifferInUnits : ClassTarget → ClassTarget → Prop
  | widths ws, widths ws' => ws.map widthName = ws'.map widthName ∧ ws ≠ ws'
  | _, _ => False

/-- Two targets whose classes have one name but not one meaning. -/
def Clash (t t' : ClassTarget) : Prop :=
  t.Overlaps t' ∨ t'.Overlaps t ∨ t.ReadsAsWidths t' ∨ t'.ReadsAsWidths t ∨ t.DifferInUnits t'

/-! ### Targets that are asked for -/

/-- The beginnings of names, with the properties of their classes. -/
def bases : List (String × List String) :=
  [("text-size", ["font-size"]), ("text", ["color"]), ("border-w", ["border-width"]),
    ("border", ["border-color"])] ++ utilityProperties

/-- Targets for which classes are asked: utilities that are known, and widths that can be read. -/
def IsKnown : ClassTarget → Prop
  | bound base properties _ => (base, properties) ∈ bases
  | widths ws => ws ≠ [] ∧ ∀ w ∈ ws, BorderShorthand.isWidth w = true

theorem mem_bases_of_utilityBinding? {utility : String} {kind? : Option ValueKind}
    {fallback? : Option (List Char)} {binding : UtilityBinding}
    (h : utilityBinding? utility kind? fallback? = some binding) :
    (binding.classBase, binding.properties) ∈ bases := by
  unfold utilityBinding? at h
  dsimp only at h
  split at h
  · rw [← Option.some.inj h]
    split <;> simp [bases]
  · split at h
    · rw [← Option.some.inj h]
      split <;> simp [bases]
    · obtain ⟨properties, hlookup, rfl⟩ := Option.map_eq_some_iff.1 h
      obtain ⟨before, after, htable, -⟩ := List.lookup_eq_some_iff.1 hlookup
      refine List.mem_append_right _ ?_
      rw [htable]
      exact List.mem_append_right _ List.mem_cons_self

/-- A beginning of names says which properties are set. -/
theorem properties_eq_of_mem_bases : ∀ p ∈ bases, ∀ q ∈ bases, p.1 = q.1 → p.2 = q.2 := by
  decide +kernel

/-- Where one beginning of names goes on to another, they set different properties. -/
theorem longer_of_mem_bases : ∀ p ∈ bases, ∀ q ∈ bases,
    (afterText? (p.1.toList ++ ['-']) q.1.toList).all (fun s =>
      decide ((p.1, String.ofList s) ∈ longerBases ∧ p.2 ≠ q.2)) = true := by
  decide +kernel

theorem IsKnown.mem_bases {t : ClassTarget} (h : t.IsKnown) :
    (t.base, t.meaning.properties) ∈ bases := by
  cases t with
  | bound base properties name => exact h
  | widths ws => simp [base, meaning, bases]

theorem toList_className (t : ClassTarget) :
    t.className.toList = t.base.toList ++ '-' :: t.label := by
  simp [className]

/-! ### One name -/

/-- A beginning of names that goes on to another one. -/
theorem IsKnown.longer {t t' : ClassTarget} (ht : t.IsKnown) (ht' : t'.IsKnown) {s : List Char}
    (h : t'.base.toList = t.base.toList ++ '-' :: s) :
    (t.base, String.ofList s) ∈ longerBases ∧ t.meaning.properties ≠ t'.meaning.properties := by
  have hall := longer_of_mem_bases _ ht.mem_bases _ ht'.mem_bases
  have hafter : afterText? (t.base.toList ++ ['-']) t'.base.toList = some s :=
    afterText?_eq_some.2 (by simpa using h)
  rw [hafter] at hall
  simpa using hall

theorem overlaps_iff {t t' : ClassTarget} (ht : t.IsKnown) (ht' : t'.IsKnown) :
    t.Overlaps t' ↔ ∃ s, t'.base.toList = t.base.toList ++ '-' :: s ∧
      t.label = s ++ '-' :: t'.label := by
  constructor
  · rintro ⟨p, -, hbase, hbase', hlabel⟩
    refine ⟨p.2.toList, ?_, hlabel⟩
    rw [hbase', hbase]
    simp
  · rintro ⟨s, hbase, hlabel⟩
    refine ⟨_, (ht.longer ht' hbase).1, rfl, String.toList_injective ?_, ?_⟩
    · simpa using hbase
    · simpa using hlabel

theorem Overlaps.properties_ne {t t' : ClassTarget} (ht : t.IsKnown) (ht' : t'.IsKnown)
    (h : t.Overlaps t') : t.meaning.properties ≠ t'.meaning.properties := by
  obtain ⟨s, hbase, -⟩ := (overlaps_iff ht ht').1 h
  exact (ht.longer ht' hbase).2

/-- Two targets share a name if it falls into the same parts for both, or if they overlap. -/
theorem className_eq_iff {t t' : ClassTarget} (ht : t.IsKnown) (ht' : t'.IsKnown) :
    t.className = t'.className ↔
      t.base = t'.base ∧ t.label = t'.label ∨ t.Overlaps t' ∨ t'.Overlaps t := by
  rw [overlaps_iff ht ht', overlaps_iff ht' ht, ← String.toList_inj, toList_className,
    toList_className, append_hyphen_eq_iff, String.toList_inj]

/-! ### Widths -/

/-- A border shorthand has widths, and nothing else. -/
theorem isKnown_of_shorthand {token : List Char} {ws : List (List Char)}
    (h : BorderShorthand.read? token = some ws) : (widths ws).IsKnown := by
  simp only [BorderShorthand.read?, Option.bind_eq_bind, Option.bind_eq_some_iff] at h
  obtain ⟨rest, -, h⟩ := h
  split at h
  · split at h
    · rename_i hcond
      obtain rfl := Option.some.inj h
      simp only [Bool.and_eq_true, Bool.or_eq_true, decide_eq_true_eq, List.all_eq_true] at hcond
      refine ⟨fun hnil => ?_, hcond.2⟩
      simp [hnil] at hcond
    · exact absurd h (by simp)
  · exact absurd h (by simp)

/-- A character of a width, or of its unit. -/
theorem isWidthChar_of_mem {w : List Char} (hw : BorderShorthand.isWidth w = true) {c : Char}
    (hc : c ∈ w) : BorderShorthand.isWidthChar c = true ∨ c = 'p' ∨ c = 'x' := by
  unfold BorderShorthand.isWidth at hw
  simp only [Bool.and_eq_true, List.all_eq_true] at hw
  split at hw
  · rename_i hends
    obtain ⟨number, rfl⟩ := List.isSuffixOf_iff_suffix.1 hends
    obtain hc | hc := List.mem_append.1 hc
    · exact Or.inl (hw.2 c (by simpa using hc))
    · simpa using Or.inr hc
  · exact Or.inl (hw.2 c hc)

theorem ne_of_mem_width {w : List Char} (hw : BorderShorthand.isWidth w = true) {c d : Char}
    (hd : BorderShorthand.isWidthChar d = false) (hp : d ≠ 'p') (hx : d ≠ 'x') (hc : c ∈ w) :
    c ≠ d := by
  rintro rfl
  obtain h | h | h := isWidthChar_of_mem hw hc
  · rw [hd] at h
    exact Bool.false_ne_true h
  · exact hp h
  · exact hx h

theorem hyphen_not_mem_widthName {w : List Char} (hw : BorderShorthand.isWidth w = true) :
    '-' ∉ widthName w := by
  intro hmem
  obtain ⟨c, hc, hmem⟩ := List.mem_flatMap.1 hmem
  obtain hc | hc := mem_of_mem_replaceText hc
  · exact List.not_mem_nil hc
  · split at hmem
    · simp at hmem
    · exact ne_of_mem_width hw rfl (by decide) (by decide) hc (List.mem_singleton.1 hmem).symm

section
variable {ws ws' : List (List Char)} (h : (widths ws).IsKnown) (h' : (widths ws').IsKnown)
include h h'

theorem label_widths_eq_iff :
    (widths ws).label = (widths ws').label ↔ ws.map widthName = ws'.map widthName :=
  intercalate_inj (List.forall_mem_map.2 fun w hw => hyphen_not_mem_widthName (h.2 w hw))
    (List.forall_mem_map.2 fun w hw => hyphen_not_mem_widthName (h'.2 w hw))
    (by simpa using h.1) (by simpa using h'.1)

theorem meaning_widths_eq_iff : (widths ws).meaning = (widths ws').meaning ↔ ws = ws' := by
  have hspace : ∀ {vs}, (widths vs).IsKnown → ∀ w ∈ vs, ' ' ∉ w := fun hvs w hw hmem =>
    ne_of_mem_width (hvs.2 w hw) rfl (by decide) (by decide) hmem rfl
  rw [← intercalate_inj (hspace h) (hspace h') h.1 h'.1, ← String.ofList_inj]
  simp [meaning]

end

/-- Two targets that have the parts of their names in common do not mean the same exactly if one
is a variable and the other widths, or if both are widths in different units. -/
theorem meaning_ne_iff_of_label_eq {t t' : ClassTarget} (ht : t.IsKnown) (ht' : t'.IsKnown)
    (hbase : t.base = t'.base) (hlabel : t.label = t'.label) :
    t.meaning ≠ t'.meaning ↔ t.ReadsAsWidths t' ∨ t'.ReadsAsWidths t ∨ t.DifferInUnits t' := by
  cases t with
  | bound b ps n =>
    cases t' with
    | bound b' ps' n' =>
      have hproperties := properties_eq_of_mem_bases _ ht _ ht' hbase
      have hname : n = n' := hlabel
      simp_all [meaning, ReadsAsWidths, DifferInUnits]
    | widths ws =>
      have hb : b = "border-w" := hbase
      have hn : n = (widths ws).label := hlabel
      simp [meaning, ReadsAsWidths, DifferInUnits, hb, hn]
  | widths ws =>
    cases t' with
    | bound b ps n =>
      have hb : b = "border-w" := hbase.symm
      have hn : n = (widths ws).label := hlabel.symm
      simp [meaning, ReadsAsWidths, DifferInUnits, hb, hn]
    | widths ws' =>
      rw [Ne, meaning_widths_eq_iff ht ht']
      simp [ReadsAsWidths, DifferInUnits, (label_widths_eq_iff ht ht').1 hlabel]

theorem ReadsAsWidths.parts_eq {t t' : ClassTarget} (h : t.ReadsAsWidths t') :
    t.base = t'.base ∧ t.label = t'.label := by
  cases t with
  | bound b ps n =>
    cases t' with
    | bound b' ps' n' => exact h.elim
    | widths ws => exact h
  | widths ws => exact h.elim

theorem DifferInUnits.parts_eq {t t' : ClassTarget} (h : t.DifferInUnits t') :
    t.base = t'.base ∧ t.label = t'.label := by
  cases t with
  | bound b ps n => exact h.elim
  | widths ws =>
    cases t' with
    | bound b' ps' n' => exact h.elim
    | widths ws' => exact ⟨rfl, congrArg (List.intercalate ['-']) h.1⟩

/-- Targets clash exactly if their classes have one name and two meanings. -/
theorem clash_iff {t t' : ClassTarget} (ht : t.IsKnown) (ht' : t'.IsKnown) :
    t.Clash t' ↔ t.className = t'.className ∧ t.meaning ≠ t'.meaning := by
  rw [className_eq_iff ht ht']
  constructor
  · rintro (h | h | h)
    · exact ⟨Or.inr (Or.inl h), fun he => h.properties_ne ht ht' (congrArg _ he)⟩
    · exact ⟨Or.inr (Or.inr h), fun he => h.properties_ne ht' ht (congrArg _ he.symm)⟩
    · have hparts : t.base = t'.base ∧ t.label = t'.label := by
        obtain h | h | h := h
        · exact h.parts_eq
        · exact ⟨h.parts_eq.1.symm, h.parts_eq.2.symm⟩
        · exact h.parts_eq
      exact ⟨Or.inl hparts, (meaning_ne_iff_of_label_eq ht ht' hparts.1 hparts.2).2 h⟩
  · rintro ⟨⟨hbase, hlabel⟩ | h | h, hne⟩
    · exact Or.inr (Or.inr ((meaning_ne_iff_of_label_eq ht ht' hbase hlabel).1 hne))
    · exact Or.inl h
    · exact Or.inr (Or.inl h)

end ClassTarget

end MarkupTidy
