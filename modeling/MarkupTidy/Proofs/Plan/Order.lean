import MarkupTidy.Proofs.Plan.Planned

/-! # Plans that are refused

A plan is refused exactly if a pass that runs does not run before every other one that runs and
that it has to precede.  What the other rules find does not refuse a plan.

* `Plan.IsOutOfOrder`: such a pair of passes, by their places among those that run.
* `Plan.exists_orderFinding_iff`: the pairs that are found.
* `Plan.exists_refusal_iff`: the plans that are refused. -/

namespace MarkupTidy

namespace Plan

/-- The pass in one place has to precede the one in another place, and does not. -/
def IsOutOfOrder (p : Plan) (here there : Nat) : Prop :=
  ∃ a b, p.enabled[here]? = some a ∧ p.enabled[there]? = some b ∧ b.name ∈ a.pass.mustPrecede ∧
    ¬ here < there

variable {p : Plan}

/-! ### Places -/

/-- The place of a pass is where it stands, if no other one has its name. -/
theorem position?_eq_some_iff (h : (p.enabled.map PlannedPass.name).Nodup) {name : String}
    {i : Nat} : p.position? name = some i ↔ ∃ e, p.enabled[i]? = some e ∧ e.name = name := by
  unfold position?
  rw [List.findIdx?_eq_some_iff_getElem]
  constructor
  · rintro ⟨hi, hname, -⟩
    exact ⟨_, List.getElem?_eq_getElem hi, by simpa using hname⟩
  · rintro ⟨e, he, rfl⟩
    obtain ⟨hi, rfl⟩ := List.getElem?_eq_some_iff.1 he
    refine ⟨hi, by simp, fun j hj => ?_⟩
    have hne := List.pairwise_iff_getElem.1 (List.pairwise_map.1 h) j i (Nat.lt_trans hj hi) hi hj
    simpa using hne

theorem exists_get?_of_mem_enabled {e : PlannedPass} (h : e ∈ p.enabled) :
    ∃ other, p.get? e.name = some other := by
  unfold get?
  rw [← Option.isSome_iff_exists, List.find?_isSome]
  exact ⟨e, (List.mem_filter.1 h).1, by simp⟩

/-! ### Findings -/

theorem orderFinding?_eq_some_iff (h : (p.enabled.map PlannedPass.name).Nodup) {i : Nat}
    {a : PlannedPass} (ha : p.enabled[i]? = some a) {later : String} :
    (∃ f, p.orderFinding? a later = some f) ↔
      ∃ j b, p.enabled[j]? = some b ∧ b.name = later ∧ ¬ i < j := by
  have hhere : p.position? a.name = some i := (position?_eq_some_iff h).2 ⟨a, ha, rfl⟩
  unfold orderFinding?
  rw [hhere]
  constructor
  · rintro ⟨f, hf⟩
    split at hf
    · rename_i here there other hi hj hother
      obtain rfl := Option.some.inj hi
      obtain ⟨b, hb, hname⟩ := (position?_eq_some_iff h).1 hj
      split at hf
      · exact absurd hf (by simp)
      · rename_i hlt
        exact ⟨there, b, hb, hname, hlt⟩
    · exact absurd hf (by simp)
  · rintro ⟨j, b, hb, rfl, hlt⟩
    have hthere : p.position? b.name = some j := (position?_eq_some_iff h).2 ⟨b, hb, rfl⟩
    obtain ⟨other, hother⟩ := exists_get?_of_mem_enabled (List.mem_of_getElem? hb)
    rw [hthere, hother]
    dsimp only
    rw [if_neg hlt]
    exact ⟨_, rfl⟩

/-- A pair of passes is found exactly if it is out of order. -/
theorem exists_orderFinding_iff (h : (p.enabled.map PlannedPass.name).Nodup) :
    (∃ f, f ∈ p.orderFindings) ↔ ∃ i j, p.IsOutOfOrder i j := by
  unfold orderFindings
  simp only [List.mem_flatMap, List.mem_filterMap]
  constructor
  · rintro ⟨f, a, ha, later, hlater, hf⟩
    obtain ⟨i, hi⟩ := List.mem_iff_getElem?.1 ha
    obtain ⟨j, b, hj, rfl, hlt⟩ := (orderFinding?_eq_some_iff h hi).1 ⟨f, hf⟩
    exact ⟨i, j, a, b, hi, hj, hlater, hlt⟩
  · rintro ⟨i, j, a, b, hi, hj, hlater, hlt⟩
    obtain ⟨f, hf⟩ := (orderFinding?_eq_some_iff h hi).2 ⟨j, b, hj, rfl, hlt⟩
    exact ⟨f, a, List.mem_of_getElem? hi, b.name, hlater, hf⟩

theorem severity_of_mem_orderFindings {f : Finding} (h : f ∈ p.orderFindings) :
    f.severity = .error := by
  unfold orderFindings at h
  simp only [List.mem_flatMap, List.mem_filterMap] at h
  obtain ⟨a, -, later, -, hf⟩ := h
  unfold orderFinding? at hf
  split at hf
  · split at hf
    · exact absurd hf (by simp)
    · rw [← Option.some.inj hf]
      rfl
  · exact absurd hf (by simp)

/-- Only passes out of order are an error. -/
theorem mem_orderFindings_of_error {f : Finding} (h : f ∈ p.findings [])
    (herror : f.severity = .error) : f ∈ p.orderFindings := by
  unfold findings planRules at h
  simp only [List.append_nil, List.flatMap_cons, List.flatMap_nil, List.mem_append] at h
  obtain h | h | h | h | h := h
  · exact h
  · obtain ⟨name, -, rfl⟩ := List.mem_map.1 h
    exact absurd herror (by simp [Finding.severity])
  · unfold enabledFindings at h
    split at h
    · rw [List.mem_singleton.1 h] at herror
      exact absurd herror (by simp [Finding.severity])
    · exact absurd h List.not_mem_nil
  · obtain ⟨e, -, hf⟩ := List.mem_flatMap.1 h
    obtain ⟨later, -, rfl⟩ := List.mem_map.1 hf
    exact absurd herror (by simp [Finding.severity])
  · obtain ⟨⟨priority, names⟩, -, hf⟩ := List.mem_filterMap.1 h
    dsimp only at hf
    split at hf
    · rw [← Option.some.inj hf] at herror
      exact absurd herror (by simp [Finding.severity])
    · exact absurd hf (by simp)

/-! ### Refusals -/

theorem exists_refusal_iff_exists_error :
    (∃ refusal, p.check = .error refusal) ↔ ∃ f, f ∈ p.orderFindings := by
  unfold check
  dsimp only
  cases herrors : (p.findings []).filter (·.severity = .error) with
  | nil =>
    refine iff_of_false (by simp) ?_
    rintro ⟨f, hf⟩
    have hfound : f ∈ p.findings [] := by
      unfold findings planRules
      exact List.mem_append_left _ hf
    have hmem : f ∈ (p.findings []).filter (·.severity = .error) :=
      List.mem_filter.2 ⟨hfound, by simpa using severity_of_mem_orderFindings hf⟩
    rw [herrors] at hmem
    exact List.not_mem_nil hmem
  | cons f rest =>
    refine iff_of_true ⟨_, rfl⟩ ⟨f, ?_⟩
    have hmem : f ∈ (p.findings []).filter (·.severity = .error) := by
      rw [herrors]
      exact List.mem_cons_self
    obtain ⟨hfound, herror⟩ := List.mem_filter.1 hmem
    exact mem_orderFindings_of_error hfound (by simpa using herror)

/-- A plan is refused exactly if passes of it are out of order. -/
theorem exists_refusal_iff (h : (p.enabled.map PlannedPass.name).Nodup) :
    (∃ refusal, p.check = .error refusal) ↔ ∃ i j, p.IsOutOfOrder i j :=
  exists_refusal_iff_exists_error.trans (exists_orderFinding_iff h)

/-- In a plan that is not refused, a pass comes before those that it has to precede. -/
theorem mem_of_check_ok (h : (p.enabled.map PlannedPass.name).Nodup) {findings : List Finding}
    (hcheck : p.check = .ok findings) {first rest : List PlannedPass} {a b : PlannedPass}
    (hplan : p.enabled = first ++ b :: rest) (ha : a ∈ p.enabled)
    (hab : b.name ∈ a.pass.mustPrecede) : a ∈ first := by
  obtain ⟨i, hi⟩ := List.mem_iff_getElem?.1 ha
  have hb : p.enabled[first.length]? = some b := by
    rw [hplan, List.getElem?_append_right (Nat.le_refl _), Nat.sub_self, List.getElem?_cons_zero]
  have hlt : i < first.length := by
    by_contra hlt
    obtain ⟨refusal, hrefusal⟩ :=
      (exists_refusal_iff h).2 ⟨i, first.length, a, b, hi, hb, hab, hlt⟩
    rw [hcheck] at hrefusal
    exact absurd hrefusal (by simp)
  rw [hplan, List.getElem?_append_left hlt] at hi
  exact List.mem_of_getElem? hi

end Plan

end MarkupTidy
