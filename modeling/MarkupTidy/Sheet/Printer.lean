import MarkupTidy.Sheet.Basic
import MarkupTidy.Text.LetterCase

/-! # Printing stylesheets

Each section stands under its own comment, and the declarations of design variables are grouped by
the first part of their names.

* `Sheet.print`: the text of a stylesheet under a heading. -/

namespace MarkupTidy

open MarkupTidy.Text

/-- A declaration as it stands in a rule. -/
def printDeclaration (property value : String) : String :=
  property ++ ": " ++ value ++ ";"

/-- A rule on several lines, one for each declaration. -/
def Rule.printBlock (r : Rule) : String :=
  r.selector ++ " \x7b\n"
    ++ String.join (r.declarations.map fun (p, v) => "  " ++ printDeclaration p v ++ "\n") ++ "\x7d"

/-- A rule, on one line if it has one declaration. -/
def Rule.print (r : Rule) : String :=
  match r.declarations with
  | [(p, v)] => r.selector ++ " \x7b " ++ printDeclaration p v ++ " \x7d"
  | _ => r.printBlock

namespace Sheet

/-- The first part of the name of a custom property. -/
def category (property : String) : String :=
  String.ofList ((property.toList.dropWhile (· = '-')).takeWhile (· ≠ '-'))

/-- The category of a group as its heading. -/
def categoryHeading (name : String) : String :=
  "  /* " ++ String.ofList (uppercase (name.toList.take 1) ++ name.toList.drop 1) ++ " */"

/-- Declarations by category, in order of first use. -/
def byCategory (properties : Declarations) : OrderedMap String Declarations :=
  properties.foldl (fun groups (p, v) =>
    let name := category p
    groups.insert name ((groups.get? name).getD [] ++ [(p, v)])) []

/-- The lines of a group. -/
def categoryLines (group : String × Declarations) : List String :=
  categoryHeading group.1 :: group.2.map fun (p, v) => "  " ++ printDeclaration p v

/-- The lines that declare design variables. -/
def propertyLines (properties : Declarations) : List String :=
  ":root \x7b" :: List.intercalate [""] ((byCategory properties).map categoryLines) ++ ["\x7d"]

/-- The lines of a section, which starts after an empty line unless it has nothing to show. -/
def sectionLines (lines : List String) : List String :=
  if lines.isEmpty then [] else "" :: lines

/-- The lines of rules under a comment. -/
def ruleLines (comment : String) (rules : List String) : List String :=
  if rules.isEmpty then [] else comment :: rules

/-- The heading of a stylesheet that belongs to one component. -/
def heading : String := "/* Auto-generated design tokens from Figma */"

/-- The text of a stylesheet under a heading. -/
def print (sheet : Sheet) (heading : String) : String :=
  let lines := heading :: sheet.imports
    ++ sectionLines (if sheet.properties.isEmpty then [] else propertyLines sheet.properties)
    ++ sectionLines (ruleLines "/* Figma-specific utility classes */"
        (sheet.utilities.map Rule.printBlock))
    ++ sectionLines (ruleLines "/* Custom classes for Figma variables */"
        (sheet.rules.map Rule.print))
  "\n".intercalate lines ++ "\n"

end Sheet

end MarkupTidy
