import MarkupTidy.Number.Binary64
import MarkupTidy.OrderedMap

/-! # JSON values

Whole numbers are exact and told apart from numbers with a fraction or an exponent; objects keep
their keys in order. -/

namespace MarkupTidy.Json

/-- A JSON value. -/
inductive Value where
  | null
  | bool (value : Bool)
  | int (value : Int)
  | float (value : Binary64)
  | text (value : String)
  | array (items : List Value)
  | object (entries : List (String × Value))
deriving Inhabited

namespace Value

/-- The value of a key of an object. -/
def field? (v : Value) (key : String) : Option Value :=
  match v with
  | .object entries => OrderedMap.get? entries key
  | _ => none

end Value

end MarkupTidy.Json
