import MarkupTidy.Run.Stats
import MarkupTidy.Sheet.Basic
import MarkupTidy.Variable.Table
import MarkupTidy.Vector.Asset

/-! # The context of a run

What a run is given, design variables and assets, and what its passes leave behind for each other
and for the stylesheet.  A reset keeps the former and clears the latter. -/

namespace MarkupTidy

/-- The context of a run. -/
structure Context where
  design : VariableTable
  assets? : Option AssetFolder
  classes : ClassTable
  stats : Stats
  fonts : List FontUse
  sections : List String
  /-- Whether the root container has been made to contain its overflow. -/
  rootContained : Bool

namespace Context

/-- The context of a run that has not begun. -/
def new (design : VariableTable) (assets? : Option AssetFolder) : Context :=
  ⟨design, assets?, .empty, .empty, [], [], false⟩

/-- Clears what a run has left behind. -/
def reset (c : Context) : Context :=
  new c.design c.assets?

/-- Typefaces with one more, unless it is among them. -/
def addFont (fonts : List FontUse) (font : FontUse) : List FontUse :=
  if fonts.contains font then fonts else fonts ++ [font]

/-- Notes a typeface that a component uses. -/
def observeFont (c : Context) (font : FontUse) : Context :=
  { c with fonts := addFont c.fonts font }

/-- How much a run has been given and has left behind, in one line. -/
def summary (c : Context) : String :=
  "RewriteContext(variables=" ++ toString c.design.size ++ ", synthesized="
    ++ toString c.classes.entries.length ++ ", fonts=" ++ toString c.fonts.length ++ ")"

end Context

end MarkupTidy
