import MarkupTidy.Plan.Rules
import MarkupTidy.Proofs.OrderedMap

/-! # What a plan holds

Passes may be registered under one name again and again.  A plan holds each name once, with the
pass that was registered under it last, at the place that its priority gives it; passes of one
priority come in the order in which their names were registered first.

* `lastRegistered?`, `firstRegistration`: the pass of a name, and its place among equals.
* `pairwise_mergeSort_of_tied`: sorting keeps the order of what is tied.
* `Plan.IsPlanOf`, `Registry.isPlanOf_plan`: the plan of registered passes. -/

namespace MarkupTidy

/-- The pass that was registered under a name last. -/
def lastRegistered? (passes : List Pass) (name : String) : Option Pass :=
  passes.reverse.find? (·.name = name)

/-- When a name was registered for the first time. -/
def firstRegistration (passes : List Pass) (name : String) : Nat :=
  (passes.map Pass.name).idxOf name

/-! ### The registry -/

namespace Registry

theorem passes_foldl_register (passes : List Pass) (r : Registry) :
    (passes.foldl register r).passes
      = (passes.map fun p => (p.name, p)).foldl (fun m (k, v) => m.insert k v) r.passes := by
  induction passes generalizing r with
  | nil => rfl
  | cons p rest ih => exact ih (r.register p)

/-- A registry holds the passes that were registered, by name. -/
theorem passes_ofPasses (passes : List Pass) :
    (ofPasses passes).passes = OrderedMap.ofEntries (passes.map fun p => (p.name, p)) :=
  passes_foldl_register passes empty

variable {passes : List Pass}

theorem map_fst_entries : (passes.map fun p => (p.name, p)).map Prod.fst = passes.map Pass.name := by
  rw [List.map_map]
  rfl

theorem mem_names_ofPasses {name : String} :
    name ∈ (ofPasses passes).passes.keys ↔ name ∈ passes.map Pass.name := by
  rw [passes_ofPasses, OrderedMap.mem_keys_ofEntries, map_fst_entries]

theorem nodup_names_ofPasses (passes : List Pass) : (ofPasses passes).passes.keys.Nodup := by
  rw [passes_ofPasses]
  exact OrderedMap.nodup_keys_ofEntries _

theorem pairwise_names_ofPasses (passes : List Pass) :
    (ofPasses passes).passes.keys.Pairwise fun a b =>
      firstRegistration passes a < firstRegistration passes b := by
  have h := OrderedMap.pairwise_keys_ofEntries (passes.map fun p => (p.name, p))
  rwa [map_fst_entries, ← passes_ofPasses] at h

/-- A pass is held under its own name. -/
theorem fst_eq_of_mem_ofPasses {entry : String × Pass} (h : entry ∈ (ofPasses passes).passes) :
    entry.1 = entry.2.name := by
  rw [passes_ofPasses] at h
  obtain ⟨p, -, rfl⟩ := List.mem_map.1 (OrderedMap.mem_ofEntries h)
  rfl

theorem get?_passes_ofPasses (passes : List Pass) (name : String) :
    (ofPasses passes).passes.get? name = lastRegistered? passes name := by
  rw [passes_ofPasses, OrderedMap.get?_ofEntries, ← List.map_reverse, List.find?_map,
    Option.map_map]
  exact Option.map_id'

end Registry

/-! ### Sorting -/

/-- Sorting keeps the order of elements that are tied. -/
theorem pairwise_mergeSort_of_tied {α : Type} {le : α → α → Bool} {r : α → α → Prop} {l : List α}
    (htrans : ∀ a b c, le a b = true → le b c = true → le a c = true)
    (htotal : ∀ a b, (le a b || le b a) = true) (h : l.Pairwise r) :
    (l.mergeSort le).Pairwise fun a b => le a b = true ∧ (le b a = true → r a b) := by
  have hsorted := List.pairwise_mergeSort (List.zipIdxLE_trans htrans) (List.zipIdxLE_total htotal)
    l.zipIdx
  have hperm := List.mergeSort_perm l.zipIdx (List.zipIdxLE le)
  have hdistinct : (l.zipIdx.mergeSort (List.zipIdxLE le)).Pairwise fun a b => a.2 ≠ b.2 := by
    have hnodup : (l.zipIdx.map Prod.snd).Nodup := by
      rw [List.zipIdx_map_snd]
      exact List.nodup_range'
    exact List.pairwise_map.1 ((hperm.map Prod.snd).nodup_iff.2 hnodup)
  rw [← List.mergeSort_zipIdx, List.pairwise_map]
  refine (hsorted.and hdistinct).imp_of_mem ?_
  rintro ⟨a, i⟩ ⟨b, j⟩ ha hb ⟨hle, hne⟩
  obtain ⟨hi, rfl⟩ : ∃ hi : i < l.length, l[i] = a :=
    List.getElem?_eq_some_iff.1 (List.mem_zipIdx_iff_getElem?.1 (hperm.mem_iff.1 ha))
  obtain ⟨hj, rfl⟩ : ∃ hj : j < l.length, l[j] = b :=
    List.getElem?_eq_some_iff.1 (List.mem_zipIdx_iff_getElem?.1 (hperm.mem_iff.1 hb))
  unfold List.zipIdxLE at hle
  dsimp only at hle hne ⊢
  split at hle
  · rename_i hab
    refine ⟨hab, fun hba => ?_⟩
    rw [if_pos hba, decide_eq_true_eq] at hle
    exact List.pairwise_iff_getElem.1 h i j hi hj (Nat.lt_of_le_of_ne hle hne)
  · exact absurd hle (by simp)

/-! ### The plan -/

/-- The plan of passes that were registered in turn, for settings. -/
structure Plan.IsPlanOf (p : Plan) (passes : List Pass) (settings : Settings) : Prop where
  /-- No name is planned twice. -/
  nodup : (p.entries.map PlannedPass.name).Nodup
  /-- The planned names are the registered ones. -/
  mem_iff : ∀ name, name ∈ p.entries.map PlannedPass.name ↔ name ∈ passes.map Pass.name
  last : ∀ e ∈ p.entries, lastRegistered? passes e.name = some e.pass
  priority : ∀ e ∈ p.entries,
    e.priority = (settings.forPass e.name).priority?.getD e.pass.priority
  enabled : ∀ e ∈ p.entries, e.enabled = (settings.forPass e.name).enabled
  sorted : p.entries.Pairwise fun a b => a.priority < b.priority ∨
    a.priority = b.priority ∧ firstRegistration passes a.name < firstRegistration passes b.name
  /-- The unknown names are those that are set and not registered. -/
  unknown : p.unknown = settings.passes.keys.filter fun name => name ∉ passes.map Pass.name

namespace Registry

/-- What is planned is a registered pass, with what the settings say of it. -/
theorem exists_of_mem_plan {r : Registry} {settings : Settings} {e : PlannedPass}
    (h : e ∈ (r.plan settings).entries) :
    ∃ name p, (name, p) ∈ r.passes ∧ e = planPass settings p := by
  obtain ⟨⟨name, p⟩, hp, rfl⟩ := List.mem_map.1
    ((Plan.entries_plan_perm r settings).mem_iff.1 h)
  exact ⟨name, p, hp, rfl⟩

variable {passes : List Pass} {settings : Settings}

/-- Before they are sorted, the planned passes have the names of the registry, in its order. -/
theorem names_planPass (passes : List Pass) (settings : Settings) :
    ((ofPasses passes).passes.map fun (_, p) => planPass settings p).map PlannedPass.name
      = (ofPasses passes).passes.keys := by
  rw [List.map_map, OrderedMap.keys]
  exact List.map_congr_left fun entry h => (fst_eq_of_mem_ofPasses h).symm

theorem names_plan_perm (passes : List Pass) (settings : Settings) :
    (((ofPasses passes).plan settings).entries.map PlannedPass.name).Perm
      (ofPasses passes).passes.keys := by
  rw [← names_planPass passes settings]
  exact (Plan.entries_plan_perm _ settings).map PlannedPass.name

theorem pairwise_plan (passes : List Pass) (settings : Settings) :
    ((ofPasses passes).plan settings).entries.Pairwise fun a b => a.priority < b.priority ∨
      a.priority = b.priority ∧
        firstRegistration passes a.name < firstRegistration passes b.name := by
  have hregistered := pairwise_names_ofPasses passes
  rw [← names_planPass passes settings, List.pairwise_map] at hregistered
  refine (pairwise_mergeSort_of_tied ?_ ?_ hregistered).imp ?_
  · intro a b c hab hbc
    simp only [decide_eq_true_eq] at hab hbc ⊢
    omega
  · intro a b
    simp only [Bool.or_eq_true, decide_eq_true_eq]
    omega
  · rintro a b ⟨hab, htied⟩
    simp only [decide_eq_true_eq] at hab htied
    obtain hlt | heq := Int.lt_or_eq_of_le hab
    · exact Or.inl hlt
    · exact Or.inr ⟨heq, htied (Int.le_of_eq heq.symm)⟩

/-- The plan of passes that were registered in turn. -/
theorem isPlanOf_plan (passes : List Pass) (settings : Settings) :
    ((ofPasses passes).plan settings).IsPlanOf passes settings where
  nodup := (names_plan_perm passes settings).nodup_iff.2 (nodup_names_ofPasses passes)
  mem_iff name := (names_plan_perm passes settings).mem_iff.trans mem_names_ofPasses
  last e he := by
    obtain ⟨name, p, hp, rfl⟩ := exists_of_mem_plan he
    obtain rfl : name = p.name := fst_eq_of_mem_ofPasses hp
    rw [← get?_passes_ofPasses]
    exact (OrderedMap.get?_eq_some_iff (nodup_names_ofPasses passes)).2 hp
  priority e he := by
    obtain ⟨name, p, -, rfl⟩ := exists_of_mem_plan he
    rfl
  enabled e he := by
    obtain ⟨name, p, -, rfl⟩ := exists_of_mem_plan he
    rfl
  sorted := pairwise_plan passes settings
  unknown := by
    refine List.filter_congr fun name _ => ?_
    rw [OrderedMap.has, Bool.eq_iff_iff, Bool.not_eq_true', Bool.eq_false_iff, ne_eq,
      OrderedMap.get?_isSome_iff, mem_names_ofPasses, decide_eq_true_eq]

/-- The passes that run have different names. -/
theorem nodup_enabled_plan (passes : List Pass) (settings : Settings) :
    (((ofPasses passes).plan settings).enabled.map PlannedPass.name).Nodup :=
  (isPlanOf_plan passes settings).nodup.sublist (List.filter_sublist.map _)

end Registry

end MarkupTidy
