import MarkupTidy.Sheet.ClassTable
import MarkupTidy.Sheet.FontImport
import MarkupTidy.Variable.Table

/-! # Stylesheets

The stylesheet beside a component: imports, the declarations of the design variables, utility
classes that the design tool relies on, and the generated classes.

* `Sheet.build`: the stylesheet of what a run has gathered.
* `Sheet.rule?`: the first rule with a selector. -/

namespace MarkupTidy

/-- Values by property. -/
abbrev Declarations := OrderedMap String String

/-- A rule of a stylesheet. -/
structure Rule where
  selector : String
  declarations : Declarations
deriving DecidableEq, Repr

/-- A stylesheet by its sections. -/
structure Sheet where
  /-- Import directives as they are written. -/
  imports : List String
  /-- What is declared for the whole page. -/
  properties : Declarations
  /-- Rules for classes of the design tool. -/
  utilities : List Rule
  /-- Rules for generated classes. -/
  rules : List Rule
deriving DecidableEq, Repr

/-- Classes of the design tool that have no counterpart elsewhere. -/
def toolUtilities : List Rule := [
  ⟨".content-start", [("align-content", "flex-start")]⟩,
  ⟨".content-end", [("align-content", "flex-end")]⟩]

namespace Sheet

/-- The stylesheet without content. -/
def empty : Sheet := ⟨[], [], [], []⟩

/-- The rule of a generated class. -/
def classRule (e : ClassEntry) : Rule :=
  ⟨"." ++ e.name, OrderedMap.ofEntries e.declarations⟩

/-- The typefaces that are imported: those seen in the markup, then those that variables
describe. -/
def fontUses (design : VariableTable) (fonts : List FontUse) : List FontUse :=
  fonts ++ design.fonts.map fun f => (f.family, Int.ofNat f.weight)

/-- The stylesheet of design variables, generated classes and typefaces. -/
def build (design : VariableTable) (classes : ClassTable) (fonts : List FontUse) : Sheet where
  imports := (fontImport? (fontUses design fonts)).toList
  properties := design.properties
  utilities := toolUtilities
  rules := classes.entries.map classRule

/-- The first rule with a selector, utilities first. -/
def rule? (sheet : Sheet) (selector : String) : Option Rule :=
  (sheet.utilities ++ sheet.rules).find? (·.selector = selector)

end Sheet

end MarkupTidy
