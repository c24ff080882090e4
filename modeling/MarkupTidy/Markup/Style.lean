import MarkupTidy.Number.Binary64
import MarkupTidy.OrderedMap

/-! # Inline styles

The value of a `style` attribute that is a plain object literal: an ordered map from property
names to values.  A value is a text, a number, or source code that is kept as it was written. -/

namespace MarkupTidy

/-- A value in an inline style. -/
inductive StyleValue where
  | text (value : String)
  | int (value : Int)
  | float (value : Binary64)
  | truth (value : Bool)
  /-- Source code kept as written, such as an identifier or a template literal. -/
  | raw (source : String)
deriving DecidableEq, Repr

/-- An inline style: property names and their values, in the order in which they were written. -/
structure Style where
  entries : OrderedMap String StyleValue
deriving DecidableEq, Repr

namespace Style

/-- The style without properties. -/
def empty : Style := ⟨[]⟩

/-- The value of a property. -/
def get? (s : Style) (key : String) : Option StyleValue :=
  s.entries.get? key

/-- Whether a property has a value. -/
def has (s : Style) (key : String) : Bool :=
  s.entries.has key

/-- Gives a property a value, in place or at the end. -/
def set (s : Style) (key : String) (value : StyleValue) : Style :=
  ⟨s.entries.insert key value⟩

/-- Gives a property a value unless it has one. -/
def setNew (s : Style) (key : String) (value : StyleValue) : Style :=
  if s.has key then s else s.set key value

theorem get?_set_self (s : Style) (key : String) (value : StyleValue) :
    (s.set key value).get? key = some value :=
  OrderedMap.get?_insert_self ..

theorem get?_set_ne (s : Style) {key other : String} (value : StyleValue) (h : key ≠ other) :
    (s.set key value).get? other = s.get? other :=
  OrderedMap.get?_insert_ne _ _ h

end Style

end MarkupTidy
