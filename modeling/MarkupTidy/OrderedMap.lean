/-! # Ordered maps

A finite map that keeps its keys in the order in which they were first given.  Giving a key
again replaces its value and leaves it in place.

* `OrderedMap.get?`, `OrderedMap.insert`, `OrderedMap.keys`.
* `get?_insert_self`, `get?_insert_ne`: the laws of a map; `keys_insert`: only a new key changes
  the order, and it goes to the end. -/

namespace MarkupTidy

/-- A map as the list of its entries, in order of first insertion. -/
abbrev OrderedMap (κ ν : Type) := List (κ × ν)

namespace OrderedMap

variable {κ ν : Type} [DecidableEq κ]

/-- The value of a key. -/
def get? : OrderedMap κ ν → κ → Option ν
  | [], _ => none
  | (k, v) :: rest, key => if k = key then some v else get? rest key

/-- Whether a key has a value. -/
def has (m : OrderedMap κ ν) (key : κ) : Bool :=
  (m.get? key).isSome

/-- Gives a key a value: in place if it has one, at the end otherwise. -/
def insert : OrderedMap κ ν → κ → ν → OrderedMap κ ν
  | [], key, value => [(key, value)]
  | (k, v) :: rest, key, value =>
    if k = key then (k, value) :: rest else (k, v) :: insert rest key value

/-- Gives a key a value unless it has one. -/
def insertNew (m : OrderedMap κ ν) (key : κ) (value : ν) : OrderedMap κ ν :=
  if m.has key then m else m ++ [(key, value)]

/-- The map that results from giving all entries in turn. -/
def ofEntries (entries : List (κ × ν)) : OrderedMap κ ν :=
  entries.foldl (fun m (k, v) => m.insert k v) []

/-- The keys in order. -/
def keys (m : OrderedMap κ ν) : List κ :=
  m.map Prod.fst

theorem get?_insert_self (m : OrderedMap κ ν) (key : κ) (value : ν) :
    (m.insert key value).get? key = some value := by
  induction m with
  | nil => simp [insert, get?]
  | cons e rest ih =>
    by_cases h : e.1 = key
    · simp [insert, get?, h]
    · simp [insert, get?, h, ih]

theorem get?_insert_ne (m : OrderedMap κ ν) {key other : κ} (value : ν) (hne : key ≠ other) :
    (m.insert key value).get? other = m.get? other := by
  induction m with
  | nil => simp [insert, get?, hne]
  | cons e rest ih =>
    by_cases h : e.1 = key
    · simp [insert, get?, h, hne]
    · simp [insert, get?, h, ih]

theorem get?_isSome_iff (m : OrderedMap κ ν) (key : κ) :
    (m.get? key).isSome = true ↔ key ∈ m.keys := by
  induction m with
  | nil => simp [get?, keys]
  | cons e rest ih =>
    by_cases h : e.1 = key
    · simp [get?, keys, h]
    · have h' : key ≠ e.1 := fun he => h he.symm
      simp only [keys] at ih
      simp [get?, keys, h, h', ih]

theorem keys_insert (m : OrderedMap κ ν) (key : κ) (value : ν) :
    (m.insert key value).keys = if key ∈ m.keys then m.keys else m.keys ++ [key] := by
  induction m with
  | nil => simp [insert, keys]
  | cons e rest ih =>
    by_cases h : e.1 = key
    · simp [insert, keys, h]
    · have h' : key ≠ e.1 := fun he => h he.symm
      simp only [keys] at ih
      by_cases hk : key ∈ List.map Prod.fst rest
      · simp [insert, keys, h, ih, hk]
      · simp [insert, keys, h, h', ih, hk]

end OrderedMap

end MarkupTidy
