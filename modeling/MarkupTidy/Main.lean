import MarkupTidy.Command.Line

/-! # The program

Reads the files that a command line may need, carries it out, and writes what has changed. -/

namespace MarkupTidy

/-- Whether a file may be read by a run that does not name it. -/
def mayBeRead (name : String) : Bool :=
  let suffix := Text.lowercase (Path.splitName name.toList).2
  suffix = ".tsx".toList || suffix = ".svg".toList || suffix = ".json".toList

/-- Adds a file to a tree if there is one at a path. -/
def addFile (tree : FileTree) (place : List String) : IO FileTree := do
  try
    let bytes ← IO.FS.readBinFile ("/" ++ "/".intercalate place)
    return { tree with files := tree.files.insert place (.ofBytes bytes) }
  catch _ => return tree

/-- Adds a folder to a tree, with what it holds.  A file that no run reads unasked is only noted. -/
partial def addFolder (tree : FileTree) (place : List String) : IO FileTree := do
  let mut tree := tree.addFolder place
  try
    for entry in ← (← IO.FS.realPath ("/" ++ "/".intercalate place)).readDir do
      let below := place ++ [entry.fileName]
      if ← entry.path.isDir then tree ← addFolder tree below
      else if mayBeRead entry.fileName then tree ← addFile tree below
      else tree := { tree with files := tree.files.insert below .binary }
  catch _ => pure ()
  return tree

/-- The files around the working directory and around those that a command line names. -/
def readTree (arguments : List String) : IO FileTree := do
  let directory := (Path.ofString (← IO.currentDir).toString).parts
  let mut tree ← addFolder ⟨directory, [], []⟩ directory
  for argument in arguments do
    let place := (Path.resolve directory (Path.ofString argument)).parts
    if !tree.isFolderAt place then
      if !tree.isFolderAt place.dropLast then tree ← addFolder tree place.dropLast
      tree ← addFile tree place
  return tree

/-- Writes the files that have changed, in the order in which they were written to the tree. -/
def writeTree (before after : FileTree) : IO Unit := do
  for (place, content) in after.changesSince before do
    match content with
    | .text value =>
      IO.FS.createDirAll ("/" ++ "/".intercalate place.dropLast)
      IO.FS.writeFile ("/" ++ "/".intercalate place) value
    | .binary => pure ()

end MarkupTidy

open MarkupTidy in
/-- Carries out a command line. -/
def main (arguments : List String) : IO UInt32 := do
  let tree ← readTree arguments
  let outcome := Command.run tree arguments
  writeTree tree outcome.tree
  for notice in outcome.notices do
    IO.eprintln (notice.level.name ++ ": " ++ notice.text)
  IO.print outcome.output
  IO.eprint outcome.errors
  if let some failure := outcome.failure? then IO.eprintln failure.message
  return UInt32.ofNat outcome.status
