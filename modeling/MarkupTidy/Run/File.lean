import MarkupTidy.Markup.Identifier
import MarkupTidy.Run.Pipeline
import MarkupTidy.Text.Blank
import MarkupTidy.Text.Search

/-! # Tidying files

The code of a component becomes a module with the imports that it needs: the React library, unless a line
of the code imports it, and the stylesheet, unless the code names it.

A component is read from a file and written to another one, with its stylesheet beside it.  Both
are written after the run has succeeded, the stylesheet first. -/

namespace MarkupTidy

/-! ### Modules -/

open MarkupTidy.Text

/-- Whether a text begins with the source that React is imported from. -/
def beginsWithReactSource (cs : List Char) : Bool :=
  match ((afterText? "from".toList cs).bind afterBlanks?) with
  | some (opening :: rest) =>
    (opening = '\'' || opening = '"') &&
      match afterText? "react".toList rest with
      | some (close :: _) => close = '\'' || close = '"'
      | _ => false
  | _ => false

/-- Whether the source that React is imported from is named before the line ends. -/
def namesReactSource : List Char → Bool
  | [] => false
  | c :: rest => beginsWithReactSource (c :: rest) || (c ≠ '\n' && namesReactSource rest)

/-- Whether a text begins, after blanks, with an import of React. -/
def beginsWithReactImport (cs : List Char) : Bool :=
  match ((afterText? "import".toList (cs.dropWhile isBlank)).bind afterBlanks?).bind
      (afterText? "React".toList) with
  | none => false
  | some rest => !rest.head?.any isWordChar && namesReactSource rest

/-- Whether a line after the first begins with an import of React. -/
def importsReactLater : List Char → Bool
  | [] => false
  | c :: rest => (c = '\n' && beginsWithReactImport rest) || importsReactLater rest

/-- Whether a line begins with an import of React. -/
def importsReact (cs : List Char) : Bool :=
  beginsWithReactImport cs || importsReactLater cs

/-- The imports that code lacks, given the name of its stylesheet if it has one. -/
def missingImports (code : List Char) (sheetName? : Option String) : List String :=
  let react := if importsReact code then [] else ["import React from 'react';"]
  let sheet := match sheetName? with
    | none => []
    | some name =>
      if name = "" || containsText ("'./" ++ name ++ "'").toList code then []
      else ["import './" ++ name ++ "';"]
  react ++ sheet

/-- The module of tidied code. -/
def TidyComponent.moduleSource (r : TidyComponent) (sheetName? : Option String) : String :=
  String.join ((missingImports r.code.toList sheetName?).map (· ++ "\n")) ++ r.code

/-! ### Files -/

/-- Why a component has not been tidied. -/
inductive FileFault where
  | access (error : AccessError)
  | run (fault : RunFault)
deriving DecidableEq, Repr

/-- The outcome of working on files: the files afterwards, and all that has been told. -/
structure FileOutcome (α : Type) where
  tree : FileTree
  events : List Event
  notices : List Notice
  result : Except FileFault α

/-- The outcome of work that has not begun, since a file cannot be used. -/
def FileOutcome.withoutAccess {α : Type} (tree : FileTree) (error : AccessError) : FileOutcome α :=
  ⟨tree, [], [], .error (.access error)⟩

/-- Puts text files into a folder, which is made if it is missing. -/
def FileTree.deliver (tree : FileTree) (folder : Path) (files : List (Path × String)) :
    FileTree × Option AccessError :=
  match tree.makeFolder folder with
  | .error e => (tree, some e)
  | .ok tree => tree.writeAll files

/-- The result of working on files, unless there was an error. -/
def FileFault.unless {α : Type} (error? : Option AccessError) (a : α) : Except FileFault α :=
  match error? with
  | some e => .error (.access e)
  | none => .ok a

/-- The path of the stylesheet beside a component. -/
def stylesheetPath? (output : Path) : Option Path :=
  output.withSuffix? ".css"

/-- The files of a tidied component. -/
def TidyComponent.files (r : TidyComponent) (output sheet : Path) : List (Path × String) :=
  [(sheet, r.stylesheet), (output, r.moduleSource (some sheet.name))]

/-- Tidies a component from one file into another. -/
def Pipeline.tidyFile (p : Pipeline) (tree : FileTree) (design : VariableTable)
    (input output : Path) : FileOutcome TidyComponent :=
  match tree.readText input with
  | .error e => .withoutAccess tree e
  | .ok source =>
    let context := Context.new design (some ⟨tree, input.parent⟩)
    let o := p.run context source input.toString
    match o.result, stylesheetPath? output with
    | .error fault, _ => ⟨tree, o.events, o.notices, .error (.run fault)⟩
    | .ok _, none => ⟨tree, o.events, o.notices, .error (.access .emptyName)⟩
    | .ok component, some sheet =>
      let (tree, error?) := tree.deliver output.parent (component.files output sheet)
      ⟨tree, o.events, o.notices, FileFault.unless error? component⟩

end MarkupTidy
