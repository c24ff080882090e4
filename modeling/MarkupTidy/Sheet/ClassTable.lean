import MarkupTidy.Notice
import MarkupTidy.OrderedMap

/-! # Generated classes

A generated class binds CSS properties to a design variable or to a literal value.  The classes
of a run are kept in a table, in the order in which they were first asked for; a name that is
asked for again keeps its first entry.

* `ClassEntry.declarations`: the declarations of a class.
* `ClassTable.register`: a table with one more entry; `ClassTable.conflict?` tells when an entry is
  turned away because its name is bound to something else. -/

namespace MarkupTidy

/-- A generated class. -/
structure ClassEntry where
  name : String
  properties : List String
  /-- The custom property that the class is bound to. -/
  customProperty? : Option String
  /-- The value where the property is not declared. -/
  fallback? : Option String
  /-- The value of a class that is bound to no variable. -/
  value? : Option String
deriving DecidableEq, Repr

namespace ClassEntry

/-- The value that a class gives its properties. -/
def declaredValue (e : ClassEntry) : String :=
  match e.customProperty? with
  | none => e.value?.getD ""
  | some property =>
    let fallback := e.fallback?.getD ""
    if fallback = "" then "var(" ++ property ++ ")"
    else "var(" ++ property ++ ", " ++ fallback ++ ")"

/-- The declarations of a class, one for each property. -/
def declarations (e : ClassEntry) : List (String × String) :=
  e.properties.map fun property => (property, e.declaredValue)

end ClassEntry

/-- Generated classes in order of first registration. -/
structure ClassTable where
  entries : List ClassEntry
deriving DecidableEq, Repr

namespace ClassTable

/-- The table without classes. -/
def empty : ClassTable := ⟨[]⟩

/-- The entry of a name. -/
def get? (t : ClassTable) (name : String) : Option ClassEntry :=
  t.entries.find? (·.name = name)

/-- Whether a name has an entry. -/
def has (t : ClassTable) (name : String) : Bool :=
  (t.get? name).isSome

/-- The entry that stands under the name of a wanted entry once it is registered. -/
def kept (t : ClassTable) (e : ClassEntry) : ClassEntry :=
  (t.get? e.name).getD e

/-- A table with one more entry, unless its name has one. -/
def register (t : ClassTable) (e : ClassEntry) : ClassTable :=
  match t.get? e.name with
  | some _ => t
  | none => ⟨t.entries ++ [e]⟩

/-- The notice for an entry whose name is bound to another one. -/
def conflict? (t : ClassTable) (e : ClassEntry) : Option Notice :=
  match t.get? e.name with
  | some first =>
    if first = e then none
    else some (.classConflict e.name first.declaredValue e.declaredValue)
  | none => none

/-- A table with more entries, and the notices for those turned away. -/
def registerAll (t : ClassTable) (es : List ClassEntry) : ClassTable × List Notice :=
  es.foldl (fun (table, notices) e => (table.register e, notices ++ (table.conflict? e).toList))
    (t, [])

theorem register_of_get?_some {t : ClassTable} {e first : ClassEntry}
    (h : t.get? e.name = some first) : t.register e = t := by
  simp [register, h]

theorem register_of_get?_none {t : ClassTable} {e : ClassEntry} (h : t.get? e.name = none) :
    (t.register e).entries = t.entries ++ [e] := by
  simp [register, h]

end ClassTable

end MarkupTidy
