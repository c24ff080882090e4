import MarkupTidy.File.Tree

/-! # Chunks

A large design is split into chunks, which lie in a folder beside the component.  Each chunk becomes
a component whose name is made of the words of its file name. -/

namespace MarkupTidy.Chunk

/-- The folder of chunks. -/
def sourceFolder : String := "chunks"

/-- The folder of tidied chunks. -/
def outputFolder : String := "chunks-fixed"

/-- The file that holds the element around the chunks. -/
def wrapperFile : String := "parent-wrapper.tsx"

/-- Collects letters and digits; the first one and each one after another character is put in upper
case. -/
def joinWords (starts : Bool) : List Char → List Char
  | [] => []
  | c :: rest =>
    if c.isAlphanum then (if starts then c.toUpper else c) :: joinWords false rest
    else joinWords true rest

/-- The name of a component for a file name without its ending. -/
def componentName (stem : List Char) : List Char :=
  let name := joinWords true stem
  match name with
  | [] => "Chunk".toList
  | c :: _ => if c.isDigit then "Chunk".toList ++ name else name

/-- Whether a file name is the one of a chunk. -/
def isChunkName (name : String) : Bool :=
  ".tsx".toList.isSuffixOf name.toList

/-- The chunks beside a component, by file name; a chunk has no chunks itself. -/
def find (tree : FileTree) (input : Path) : Except AccessError (List Path) :=
  let folder := input.parent.child sourceFolder
  match tree.kind? folder with
  | .error e => .error e
  | .ok kind? =>
    if kind? ≠ some .folder || input.parent.name = sourceFolder then .ok []
    else
      .ok ((((tree.names folder).filter isChunkName).mergeSort (· ≤ ·)).map folder.child)

end MarkupTidy.Chunk
