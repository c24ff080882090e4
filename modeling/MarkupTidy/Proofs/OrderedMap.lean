import Mathlib.Data.List.Induction
import Mathlib.Data.List.Nodup
import Mathlib.Data.List.Perm.Subperm
import MarkupTidy.OrderedMap

/-! # Maps and their entries

Which entries an ordered map has, and in which order its keys do not matter.  Entries may be gathered
in parts: whether a part is given entry by entry or as what has been gathered from it makes no
difference to the whole, and not to the order either.

* `mem_insert`, `mem_ofEntries`: the entries of a map have been given to it.
* `nodup_keys_ofEntries`, `ofEntries_eq_self`: a map has each key once, and a list that has each key
  once is a map.
* `get?_ofEntries`, `pairwise_keys_ofEntries`: the last entry of a key gives its value, the first
  one its place.
* `get?_eq_some_iff`, `get?_eq_of_perm`: maps with the same entries have the same values;
  `ext_get?`: a map is its keys in order and their values.
* `firsts`: a list without repetitions; `firsts_append`: the first occurrences in two lists.
* `ofEntries_append_ofEntries`, `firstEntries_append_firstEntries`: maps in which the last entry of a
  key counts, or the first one. -/

namespace MarkupTidy.OrderedMap

variable {κ ν : Type} [DecidableEq κ]

theorem mem_of_get? {m : OrderedMap κ ν} {key : κ} {value : ν} (h : m.get? key = some value) :
    (key, value) ∈ m := by
  induction m with
  | nil => simp [get?] at h
  | cons e rest ih =>
    rw [get?] at h
    split at h
    · rename_i hk
      obtain rfl := Option.some.inj h
      rw [← hk]
      exact List.mem_cons_self
    · exact List.mem_cons_of_mem _ (ih h)

theorem mem_insert {m : OrderedMap κ ν} {key : κ} {value : ν} {entry : κ × ν}
    (h : entry ∈ m.insert key value) : entry ∈ m ∨ entry = (key, value) := by
  induction m with
  | nil => exact .inr (by simpa [insert] using h)
  | cons e rest ih =>
    rw [insert] at h
    split at h
    · rename_i hk
      rcases List.mem_cons.1 h with rfl | h
      · exact .inr (by rw [hk])
      · exact .inl (List.mem_cons_of_mem _ h)
    · rcases List.mem_cons.1 h with rfl | h
      · exact .inl List.mem_cons_self
      · exact (ih h).imp_left (List.mem_cons_of_mem _)

theorem insert_of_not_mem {m : OrderedMap κ ν} {key : κ} (h : key ∉ m.keys) (value : ν) :
    m.insert key value = m ++ [(key, value)] := by
  induction m with
  | nil => rfl
  | cons e rest ih =>
    simp only [keys, List.map_cons, List.mem_cons, not_or] at h
    rw [insert, if_neg (Ne.symm h.1), ih h.2]
    rfl

theorem nodup_keys_insert {m : OrderedMap κ ν} (h : m.keys.Nodup) (key : κ) (value : ν) :
    (m.insert key value).keys.Nodup := by
  rw [keys_insert]
  split
  · exact h
  · rename_i hkey
    exact List.nodup_append.2 ⟨h, List.nodup_singleton key, by
      intro a ha b hb
      rw [List.mem_singleton.1 hb]
      exact fun he => hkey (he ▸ ha)⟩

/-! ### Entries given in turn -/

theorem foldl_insert_eq_append (entries : List (κ × ν)) (m : OrderedMap κ ν)
    (h : (m ++ entries).keys.Nodup) :
    entries.foldl (fun m (k, v) => m.insert k v) m = m ++ entries := by
  induction entries generalizing m with
  | nil => simp
  | cons e rest ih =>
    obtain ⟨key, value⟩ := e
    have hkey : key ∉ m.keys := by
      intro hmem
      rw [keys, List.map_append, List.nodup_append] at h
      exact h.2.2 _ hmem _ (by simp) rfl
    rw [List.append_cons] at h
    rw [List.foldl_cons]
    dsimp only
    rw [insert_of_not_mem hkey, ih _ h, ← List.append_cons]

/-- A list that has each key once is a map. -/
theorem ofEntries_eq_self {m : OrderedMap κ ν} (h : m.keys.Nodup) : ofEntries m = m :=
  foldl_insert_eq_append m [] h

theorem nodup_keys_foldl_insert (entries : List (κ × ν)) {m : OrderedMap κ ν}
    (h : m.keys.Nodup) : (entries.foldl (fun m (k, v) => m.insert k v) m).keys.Nodup := by
  induction entries generalizing m with
  | nil => exact h
  | cons e rest ih => exact ih (nodup_keys_insert h e.1 e.2)

theorem nodup_keys_ofEntries (entries : List (κ × ν)) : (ofEntries entries).keys.Nodup :=
  nodup_keys_foldl_insert entries List.nodup_nil

theorem mem_foldl_insert {entries : List (κ × ν)} {m : OrderedMap κ ν} {entry : κ × ν}
    (h : entry ∈ entries.foldl (fun m (k, v) => m.insert k v) m) : entry ∈ m ∨ entry ∈ entries := by
  induction entries generalizing m with
  | nil => exact .inl h
  | cons e rest ih =>
    obtain h | h := ih h
    · obtain h | rfl := mem_insert h
      · exact .inl h
      · exact .inr List.mem_cons_self
    · exact .inr (List.mem_cons_of_mem e h)

theorem mem_ofEntries {entries : List (κ × ν)} {entry : κ × ν} (h : entry ∈ ofEntries entries) :
    entry ∈ entries :=
  (mem_foldl_insert h).resolve_left List.not_mem_nil

theorem mem_keys_foldl_insert (entries : List (κ × ν)) (m : OrderedMap κ ν) (key : κ) :
    key ∈ (entries.foldl (fun m (k, v) => m.insert k v) m).keys ↔
      key ∈ m.keys ∨ key ∈ entries.map Prod.fst := by
  induction entries generalizing m with
  | nil => simp
  | cons e rest ih =>
    rw [List.foldl_cons, ih, keys_insert, List.map_cons, List.mem_cons]
    split
    · rename_i hmem
      constructor
      · exact fun h => h.imp_right Or.inr
      · rintro (h | rfl | h)
        · exact .inl h
        · exact .inl hmem
        · exact .inr h
    · rw [List.mem_append, List.mem_singleton, or_assoc]

theorem mem_keys_ofEntries {entries : List (κ × ν)} {key : κ} :
    key ∈ (ofEntries entries).keys ↔ key ∈ entries.map Prod.fst := by
  rw [ofEntries, mem_keys_foldl_insert]
  simp [keys]

/-- A map that has an entry for each that was given is the list of these. -/
theorem ofEntries_eq_of_length {entries : List (κ × ν)}
    (h : entries.length ≤ (ofEntries entries).length) : ofEntries entries = entries := by
  have hsubset : (ofEntries entries).keys ⊆ entries.map Prod.fst := fun _ => mem_keys_ofEntries.1
  have hperm := ((nodup_keys_ofEntries entries).subperm hsubset).perm_of_length_le
    (by rwa [keys, List.length_map, List.length_map])
  exact ofEntries_eq_self (hperm.nodup_iff.1 (nodup_keys_ofEntries entries))

theorem ofEntries_append_singleton (entries : List (κ × ν)) (e : κ × ν) :
    ofEntries (entries ++ [e]) = (ofEntries entries).insert e.1 e.2 := by
  rw [ofEntries, List.foldl_append]
  rfl

/-- The value of a key is the one that was given last. -/
theorem get?_ofEntries (entries : List (κ × ν)) (key : κ) :
    (ofEntries entries).get? key = (entries.reverse.find? (·.1 = key)).map Prod.snd := by
  induction entries using List.reverseRecOn with
  | nil => rfl
  | append_singleton entries e ih =>
    rw [ofEntries_append_singleton, List.reverse_append, List.reverse_singleton,
      List.singleton_append]
    by_cases h : e.1 = key
    · rw [List.find?_cons_of_pos (by simpa using h), h, get?_insert_self]
      rfl
    · rw [List.find?_cons_of_neg (by simpa using h), get?_insert_ne _ _ h, ih]

/-- The keys stand in the order in which they were given first. -/
theorem pairwise_keys_ofEntries (entries : List (κ × ν)) :
    (ofEntries entries).keys.Pairwise fun a b =>
      (entries.map Prod.fst).idxOf a < (entries.map Prod.fst).idxOf b := by
  induction entries using List.reverseRecOn with
  | nil => exact List.Pairwise.nil
  | append_singleton entries e ih =>
    have hplace : ∀ key ∈ (ofEntries entries).keys,
        ((entries ++ [e]).map Prod.fst).idxOf key = (entries.map Prod.fst).idxOf key := by
      intro key hkey
      rw [List.map_append]
      exact List.idxOf_append_of_mem (mem_keys_ofEntries.1 hkey)
    have hkept : (ofEntries entries).keys.Pairwise fun a b =>
        ((entries ++ [e]).map Prod.fst).idxOf a < ((entries ++ [e]).map Prod.fst).idxOf b := by
      refine ih.imp_of_mem fun ha hb h => ?_
      rwa [hplace _ ha, hplace _ hb]
    rw [ofEntries_append_singleton, keys_insert]
    split
    · exact hkept
    · rename_i hnew
      refine List.pairwise_append.2 ⟨hkept, List.pairwise_singleton _ _, fun a ha b hb => ?_⟩
      obtain rfl := List.mem_singleton.1 hb
      rw [hplace a ha, List.map_append,
        List.idxOf_append_of_notMem fun h => hnew (mem_keys_ofEntries.2 h)]
      exact Nat.lt_add_right _ (List.idxOf_lt_length_of_mem (mem_keys_ofEntries.1 ha))

/-! ### Values -/

theorem get?_eq_some_iff {m : OrderedMap κ ν} (h : m.keys.Nodup) {key : κ} {value : ν} :
    m.get? key = some value ↔ (key, value) ∈ m := by
  refine ⟨mem_of_get?, fun hmem => ?_⟩
  induction m with
  | nil => exact absurd hmem List.not_mem_nil
  | cons e rest ih =>
    obtain ⟨hkey, hrest⟩ := List.nodup_cons.1 h
    rw [get?]
    obtain rfl | hmem := List.mem_cons.1 hmem
    · rw [if_pos rfl]
    · rw [if_neg, ih hrest hmem]
      rintro rfl
      exact hkey (List.mem_map.2 ⟨_, hmem, rfl⟩)

/-- The order of the entries does not matter. -/
theorem get?_eq_of_perm {m m' : OrderedMap κ ν} (hperm : m.Perm m') (h : m.keys.Nodup) (key : κ) :
    m.get? key = m'.get? key := by
  have h' : m'.keys.Nodup := (hperm.map Prod.fst).nodup_iff.1 h
  refine Option.ext fun value => ?_
  rw [get?_eq_some_iff h, get?_eq_some_iff h', hperm.mem_iff]

end MarkupTidy.OrderedMap

namespace MarkupTidy

/-! ### Lists without repetitions -/

section
variable {α : Type} [DecidableEq α]

/-- A list with an item at its end that it did not have. -/
def addNew (items : List α) (item : α) : List α :=
  if item ∈ items then items else items ++ [item]

theorem mem_foldl_addNew {items gathered : List α} {item : α} :
    item ∈ items.foldl addNew gathered ↔ item ∈ gathered ∨ item ∈ items := by
  induction items generalizing gathered with
  | nil => simp
  | cons first rest ih =>
    rw [List.foldl_cons, ih, List.mem_cons, ← or_assoc]
    refine or_congr_left ?_
    unfold addNew
    split
    · rename_i hfirst
      refine ⟨Or.inl, ?_⟩
      rintro (h | rfl)
      · exact h
      · exact hfirst
    · rw [List.mem_append, List.mem_singleton]

/-- What has been gathered is gathered again as the items that it was gathered from. -/
theorem foldl_addNew_foldl (gathered items : List α) :
    (items.foldl addNew []).foldl addNew gathered = items.foldl addNew gathered := by
  induction items using List.reverseRecOn with
  | nil => rfl
  | append_singleton items item ih =>
    rw [List.foldl_append, List.foldl_append, ← ih]
    simp only [List.foldl_cons, List.foldl_nil]
    generalize items.foldl addNew [] = before
    by_cases hmem : item ∈ before
    · rw [addNew, addNew, if_pos hmem, if_pos (mem_foldl_addNew.2 (.inr hmem))]
    · rw [addNew, if_neg hmem, List.foldl_append]
      rfl

/-- The items of a list, each at its first place. -/
def firsts (items : List α) : List α :=
  items.foldl addNew []

theorem mem_firsts {items : List α} {item : α} : item ∈ firsts items ↔ item ∈ items :=
  mem_foldl_addNew.trans (or_iff_right List.not_mem_nil)

theorem firsts_append (items more : List α) :
    firsts (items ++ more) = (firsts more).foldl addNew (firsts items) := by
  rw [firsts, List.foldl_append]
  exact (foldl_addNew_foldl _ more).symm

theorem firsts_firsts (items : List α) : firsts (firsts items) = firsts items :=
  foldl_addNew_foldl [] items

theorem firsts_append_firsts (items more : List α) :
    firsts (firsts items ++ firsts more) = firsts (items ++ more) := by
  rw [firsts_append, firsts_append, firsts_firsts, firsts_firsts]

end

namespace OrderedMap

variable {κ ν : Type} [DecidableEq κ]

/-! ### Keys and values -/

theorem get?_eq_none_iff {m : OrderedMap κ ν} {key : κ} : m.get? key = none ↔ key ∉ m.keys := by
  rw [← get?_isSome_iff, Bool.not_eq_true, Option.isSome_eq_false_iff, Option.isNone_iff_eq_none]

/-- A map is its keys in order and their values. -/
theorem ext_get? {m m' : OrderedMap κ ν} (h : m.keys.Nodup) (hkeys : m.keys = m'.keys)
    (hget : ∀ key, m.get? key = m'.get? key) : m = m' := by
  induction m generalizing m' with
  | nil => exact (List.map_eq_nil_iff.1 hkeys.symm).symm
  | cons e rest ih =>
    obtain ⟨e', rest', rfl, hkey, hrest⟩ := List.map_eq_cons_iff.1 hkeys.symm
    obtain ⟨key, value⟩ := e
    obtain ⟨key', value'⟩ := e'
    obtain rfl : key' = key := hkey
    obtain ⟨hnew, hnodup⟩ := List.nodup_cons.1 h
    have hvalue := hget key'
    rw [get?, get?, if_pos rfl, if_pos rfl, Option.some.injEq] at hvalue
    have hbehind : rest = rest' := by
      refine ih hnodup hrest.symm fun other => ?_
      have hother := hget other
      rw [get?, get?] at hother
      split at hother
      · rename_i heq
        subst heq
        rw [get?_eq_none_iff.2 hnew, get?_eq_none_iff.2 (by rwa [keys, hrest])]
      · exact hother
    rw [hvalue, hbehind]

/-! ### The last entry of a key -/

/-- A map with one more entry. -/
def give (m : OrderedMap κ ν) (e : κ × ν) : OrderedMap κ ν :=
  m.insert e.1 e.2

theorem keys_foldl_insert (entries : List (κ × ν)) (m : OrderedMap κ ν) :
    (entries.foldl give m).keys
      = (entries.map Prod.fst).foldl addNew m.keys := by
  induction entries generalizing m with
  | nil => rfl
  | cons e rest ih =>
    rw [List.foldl_cons, ih, give, keys_insert]
    rfl

theorem ofEntries_eq_foldl (entries : List (κ × ν)) :
    ofEntries entries = entries.foldl give [] :=
  rfl

theorem keys_ofEntries (entries : List (κ × ν)) :
    (ofEntries entries).keys = firsts (entries.map Prod.fst) :=
  keys_foldl_insert entries []

theorem get?_foldl_insert (entries : List (κ × ν)) (m : OrderedMap κ ν) (key : κ) :
    (entries.foldl give m).get? key
      = ((ofEntries entries).get? key).or (m.get? key) := by
  induction entries using List.reverseRecOn with
  | nil => rfl
  | append_singleton entries e ih =>
    rw [List.foldl_append, ofEntries_append_singleton, List.foldl_cons, List.foldl_nil, give]
    by_cases h : e.1 = key
    · rw [h, get?_insert_self, get?_insert_self]
      rfl
    · rw [get?_insert_ne _ _ h, get?_insert_ne _ _ h, ih]

theorem ofEntries_append (entries more : List (κ × ν)) :
    ofEntries (entries ++ more) = more.foldl give (ofEntries entries) := by
  rw [ofEntries_eq_foldl, List.foldl_append]
  rfl

/-- Maps are merged as the entries that they come from. -/
theorem ofEntries_append_ofEntries (entries more : List (κ × ν)) :
    ofEntries (ofEntries entries ++ ofEntries more) = ofEntries (entries ++ more) := by
  have hself : ∀ es : List (κ × ν), ofEntries (ofEntries es) = ofEntries es := fun es =>
    ofEntries_eq_self (nodup_keys_ofEntries es)
  refine ext_get? (nodup_keys_ofEntries _) ?_ fun key => ?_
  · have hkeys : (ofEntries entries ++ ofEntries more).map Prod.fst
        = firsts (entries.map Prod.fst) ++ firsts (more.map Prod.fst) := by
      rw [← keys_ofEntries, ← keys_ofEntries]
      exact List.map_append
    rw [keys_ofEntries, keys_ofEntries, hkeys, firsts_append_firsts, List.map_append]
  · rw [ofEntries_append, ofEntries_append, get?_foldl_insert, get?_foldl_insert, hself, hself]

/-! ### The first entry of a key -/

/-- A map with one more entry, unless its key has a value. -/
def giveNew (m : OrderedMap κ ν) (e : κ × ν) : OrderedMap κ ν :=
  m.insertNew e.1 e.2

/-- The map that results from giving all entries in turn, except for keys that have a value. -/
def firstEntries (entries : List (κ × ν)) : OrderedMap κ ν :=
  entries.foldl giveNew []

theorem keys_insertNew (m : OrderedMap κ ν) (key : κ) (value : ν) :
    (m.insertNew key value).keys = addNew m.keys key := by
  unfold insertNew addNew has
  simp only [get?_isSome_iff]
  split
  · rfl
  · exact List.map_append

theorem get?_append (m m' : OrderedMap κ ν) (key : κ) :
    get? (m ++ m') key = (m.get? key).or (m'.get? key) := by
  induction m with
  | nil => rfl
  | cons e rest ih =>
    rw [List.cons_append, get?, get?]
    split
    · rfl
    · exact ih

theorem get?_insertNew (m : OrderedMap κ ν) (e : κ × ν) (key : κ) :
    (m.insertNew e.1 e.2).get? key = (m.get? key).or (get? [e] key) := by
  unfold insertNew has
  split
  · rename_i hold
    by_cases h : e.1 = key
    · obtain ⟨value, hvalue⟩ := Option.isSome_iff_exists.1 hold
      rw [← h, hvalue]
      rfl
    · have hnone : get? [e] key = none := by rw [get?, if_neg h, get?]
      rw [hnone, Option.or_none]
  · exact get?_append m [e] key

theorem keys_foldl_insertNew (entries : List (κ × ν)) (m : OrderedMap κ ν) :
    (entries.foldl giveNew m).keys
      = (entries.map Prod.fst).foldl addNew m.keys := by
  induction entries generalizing m with
  | nil => rfl
  | cons e rest ih =>
    rw [List.foldl_cons, ih, giveNew, keys_insertNew]
    rfl

theorem keys_firstEntries (entries : List (κ × ν)) :
    (firstEntries entries).keys = firsts (entries.map Prod.fst) :=
  keys_foldl_insertNew entries []

theorem get?_foldl_insertNew (entries : List (κ × ν)) (m : OrderedMap κ ν) (key : κ) :
    (entries.foldl giveNew m).get? key
      = (m.get? key).or (get? entries key) := by
  induction entries generalizing m with
  | nil => exact (Option.or_none).symm
  | cons e rest ih =>
    rw [List.foldl_cons, ih, giveNew, get?_insertNew, Option.or_assoc, ← get?_append]
    rfl

theorem get?_firstEntries (entries : List (κ × ν)) (key : κ) :
    (firstEntries entries).get? key = get? entries key :=
  get?_foldl_insertNew entries [] key

theorem nodup_keys_firstEntries (entries : List (κ × ν)) : (firstEntries entries).keys.Nodup := by
  rw [keys_firstEntries, ← keys_ofEntries]
  exact nodup_keys_ofEntries entries

theorem mem_firstEntries {entries : List (κ × ν)} {e : κ × ν} (h : e ∈ firstEntries entries) :
    e ∈ entries := by
  have hget := (get?_eq_some_iff (nodup_keys_firstEntries entries)).2 h
  rw [get?_firstEntries] at hget
  exact mem_of_get? hget

/-- Maps are merged as the entries that they come from. -/
theorem firstEntries_append_firstEntries (entries more : List (κ × ν)) :
    firstEntries (firstEntries entries ++ firstEntries more) = firstEntries (entries ++ more) := by
  refine ext_get? (nodup_keys_firstEntries _) ?_ fun key => ?_
  · have hkeys : (firstEntries entries ++ firstEntries more).map Prod.fst
        = firsts (entries.map Prod.fst) ++ firsts (more.map Prod.fst) := by
      rw [← keys_firstEntries, ← keys_firstEntries]
      exact List.map_append
    rw [keys_firstEntries, keys_firstEntries, hkeys, firsts_append_firsts, List.map_append]
  · rw [get?_firstEntries, get?_firstEntries, get?_append, get?_append, get?_firstEntries,
      get?_firstEntries]

end OrderedMap

end MarkupTidy
