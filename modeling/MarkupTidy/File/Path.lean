import MarkupTidy.File.Name
import MarkupTidy.Text.Search

/-! # Paths

A path starts at the working directory or at the root folder, and goes through a list of parts.
Empty parts and single points mean nothing and are dropped; double points stay, since they ask for
an existing folder.

* `Path.ofString`, `Path.toString`: the written form.
* `Path.name`, `Path.stem`, `Path.suffix`, `Path.withSuffix?`: the last part and its ending.
* `Path.isLongPart`, `Path.isLongText`: what is too long to be looked up.
* `Path.resolve`: an absolute path without double points. -/

namespace MarkupTidy

open MarkupTidy.Text

/-- Where a path starts. -/
inductive PathStart where
  | workingDirectory
  | root
  /-- The root folder, written with two slashes; such a path keeps its second slash. -/
  | doubleRoot
deriving DecidableEq, Repr

namespace PathStart

/-- The written form of a start. -/
def text : PathStart → String
  | workingDirectory => ""
  | root => "/"
  | doubleRoot => "//"

/-- The start of a path that is written with a number of slashes in front.  Three and more mean the
same as one. -/
def ofSlashes : Nat → PathStart
  | 0 => workingDirectory
  | 2 => doubleRoot
  | _ => root

theorem ofSlashes_length_text (s : PathStart) : ofSlashes s.text.length = s := by
  cases s <;> rfl

end PathStart

/-- A path as written. -/
structure Path where
  start : PathStart
  parts : List String
deriving DecidableEq, Repr

namespace Path

/-- A text as a path. -/
def ofString (source : String) : Path where
  start := .ofSlashes (source.toList.takeWhile (· = '/')).length
  parts := ((splitOn '/' source.toList).map String.ofList).filter fun part =>
    part ≠ "" && part ≠ "."

/-- A path as text; the empty relative path is a point. -/
protected def toString (p : Path) : String :=
  let source := p.start.text ++ "/".intercalate p.parts
  if source = "" then "." else source

/-- Whether a path means the same from every working directory. -/
def isAbsolute (p : Path) : Bool :=
  p.start ≠ .workingDirectory

/-- A path seen from another; an absolute one stands for itself. -/
def join (base p : Path) : Path :=
  if p.isAbsolute then p else ⟨base.start, base.parts ++ p.parts⟩

/-- A path with one more part. -/
def child (p : Path) (part : String) : Path :=
  ⟨p.start, p.parts ++ [part]⟩

/-- The last part, empty if there is none. -/
def name (p : Path) : String :=
  p.parts.getLast?.getD ""

/-- The path without its last part. -/
def parent (p : Path) : Path :=
  { p with parts := p.parts.dropLast }

/-- A name before its last point and from it on.  A point at either end does not count. -/
def splitName (name : List Char) : List Char × List Char :=
  let ending := afterLast '.' name
  let stem := name.take (name.length - ending.length - 1)
  if ending.isEmpty || stem.isEmpty || ending.length = name.length then (name, [])
  else (stem, '.' :: ending)

/-- The last part without its ending. -/
def stem (p : Path) : String :=
  String.ofList (splitName p.name.toList).1

/-- The ending of the last part, from its last point on. -/
def suffix (p : Path) : String :=
  String.ofList (splitName p.name.toList).2

/-- The path with another ending; a path without parts has nothing to put it on. -/
def withSuffix? (p : Path) (ending : String) : Option Path :=
  if p.parts.isEmpty then none else some (p.parent.child (p.stem ++ ending))

/-- Why a path cannot be looked up, if it cannot. -/
def nameFault? (p : Path) : Option NameFault :=
  MarkupTidy.nameFault? p.toString

/-- Whether a part is too long for a folder to hold it.  Lengths count bytes. -/
def isLongPart (part : String) : Bool :=
  255 < nameBytes part

/-- Whether a written path is too long to be followed. -/
def isLongText (source : String) : Bool :=
  4095 < nameBytes source

/-- Parts with every `..` cancelling the part below it. -/
def normalizeFrom (below : List String) : List String → List String
  | [] => below.reverse
  | part :: rest =>
    if part = ".." then normalizeFrom below.tail rest else normalizeFrom (part :: below) rest

/-- An absolute path without `..`, for a path seen from a folder that is given by its parts. -/
def resolve (folder : List String) (p : Path) : Path :=
  ⟨.root, normalizeFrom [] (if p.isAbsolute then p.parts else folder ++ p.parts)⟩

/-- Goes on through the parts of a path, past those below, last one first, until a part cannot be
looked up. -/
def partFaultFrom (isAbsolute : Bool) (below : List String) : List String → Option NameFault
  | [] => none
  | part :: rest =>
    if part = ".." then
      let climbed := match below with
        | [] => if isAbsolute then [] else [".."]
        | last :: others => if last = ".." then ".." :: below else others
      partFaultFrom isAbsolute climbed rest
    else
      match MarkupTidy.nameFault? part with
      | none => partFaultFrom isAbsolute (part :: below) rest
      | some _ =>
        (Path.mk (if isAbsolute then .root else .workingDirectory)
          (part :: below).reverse).nameFault?

/-- Why a path cannot be resolved, if it cannot.  Its parts are looked up one after the other, each
with what is left of the parts before it. -/
def resolveFault? (p : Path) : Option NameFault :=
  partFaultFrom p.isAbsolute [] p.parts

end Path

end MarkupTidy
