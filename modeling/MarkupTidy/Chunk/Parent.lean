import MarkupTidy.Chunk.Name
import MarkupTidy.Markup.Iteration
import MarkupTidy.Markup.Printer
import MarkupTidy.Markup.Reader
import MarkupTidy.Notice
import MarkupTidy.Text.Blank
import MarkupTidy.Text.Search
import MarkupTidy.Text.WordChar

/-! # Parent components

The parent component of a chunked design shows every chunk once, in order, inside the element that
was around them in the design.

* `parentSource`: the source of the parent component.
* `wrapper`: the element around the chunks.
* `exportedName?`: the name of the component that a source exports. -/

namespace MarkupTidy.Chunk

open MarkupTidy.Text

/-- The source of the parent component. -/
def parentSource (name : String) (chunks : List String) (wrapper : Element) (sheetName : String) :
    String :=
  let imports := "import React from 'react';"
    :: (chunks.map fun chunk =>
      "import " ++ chunk ++ " from './" ++ outputFolder ++ "/" ++ chunk ++ "';")
    ++ ["import './" ++ sheetName ++ "';"]
  let content : Element :=
    { wrapper with children := chunks.map fun chunk => .element ⟨chunk, [], []⟩ }
  "\n".intercalate imports ++ "\n\nexport default function " ++ name
    ++ "() \x7b\n  return (\n    " ++ String.ofList (content.print "    ".toList)
    ++ "\n  );\n\x7d\n"

/-- The element around chunks of which nothing is known. -/
def plainWrapper : Element :=
  ⟨"div", [⟨"className", .text "w-full"⟩], []⟩

/-- The first `div` of a document, without its children. -/
def firstDiv? (d : Document) : Option Element :=
  (d.iterated.find? (·.tag = "div")).map fun e => { e with children := [] }

/-- The element around the chunks of a component in a folder. -/
def wrapper (tree : FileTree) (folder : Path) : Except AccessError (Element × List Notice) :=
  let path := folder.child wrapperFile
  match tree.kind? path with
  | .error e => .error e
  | .ok none => .ok (plainWrapper, [])
  | .ok (some _) =>
    match tree.readText path with
    | .error e => .error e
    | .ok source =>
      match Document.read source with
      | .error e => .ok (plainWrapper, [.wrapperMalformed path.toString e.message])
      | .ok d =>
        match firstDiv? d with
        | some e => .ok (e, [])
        | none => .ok (plainWrapper, [.wrapperMissing path.toString])

/-- The name of an exported component at the front of a text. -/
def readExport? (cs : List Char) : Option (List Char × List Char) :=
  let word (w : String) (cs : List Char) : Option (List Char) :=
    (afterText? w.toList cs).bind afterBlanks?
  match ((word "export" cs).bind (word "default")).bind (word "function") with
  | none => none
  | some cs =>
    let name := cs.takeWhile isWordChar
    if name.isEmpty then none else some (name, cs.dropWhile isWordChar)

/-- The name of the component that a source exports. -/
def exportedName? (source : List Char) : Option (List Char) :=
  (findAll readExport? source).head?

end MarkupTidy.Chunk
