import MarkupTidy.File.Path
import MarkupTidy.OrderedMap

/-! # File trees

The files that a run sees, as a value: text files, files that are no text, and folders, each under
its absolute path, together with the working directory.

* `FileTree.locate`: the absolute place of a path; each part but the last has to be a folder.
* `FileTree.kind?`: what a path leads to.
* `FileTree.readText`, `FileTree.writeText`, `FileTree.makeFolder`: reading and writing.
* `FileTree.names`: what a folder holds.

Reading makes every line end in a line feed; writing changes nothing. -/

namespace MarkupTidy

open MarkupTidy.Text

/-- The content of a file. -/
inductive FileContent where
  | text (value : String)
  /-- Bytes that are no UTF-8 text. -/
  | binary
deriving DecidableEq, Repr

/-- The bytes of a file as its content. -/
def FileContent.ofBytes (bytes : ByteArray) : FileContent :=
  match String.fromUTF8? bytes with
  | some value => .text value
  | none => .binary

/-- The ways in which a file cannot be used. -/
inductive AccessError where
  | missing
  | notFolder
  | isFolder
  | alreadyExists
  | notText
  /-- A text that was to be written has no encoding. -/
  | notEncodable
  | name (fault : NameFault)
  | nameTooLong
  | emptyName
deriving DecidableEq, Repr

/-- The wording of an error. -/
def AccessError.message : AccessError → String
  | missing => "No such file or directory"
  | notFolder => "Not a directory"
  | isFolder => "Is a directory"
  | alreadyExists => "File exists"
  | notText => "The file is not a UTF-8 text"
  | notEncodable => "The text holds half of a surrogate pair"
  | name fault => fault.message
  | nameTooLong => "File name too long"
  | emptyName => "The path has an empty name"

/-- What a path can lead to. -/
inductive PlaceKind where
  | file
  | folder
deriving DecidableEq, Repr

/-- Files and folders by their absolute parts. -/
structure FileTree where
  /-- The working directory. -/
  directory : List String
  files : OrderedMap (List String) FileContent
  /-- Folders beside those that hold a file.  What a folder lies in is a folder too. -/
  folders : List (List String)

/-- A text with a line feed at the end of every line. -/
def unifyNewlines : List Char → List Char
  | [] => []
  | '\r' :: '\n' :: rest => '\n' :: unifyNewlines rest
  | c :: rest => (if c = '\r' then '\n' else c) :: unifyNewlines rest

namespace FileTree

/-- Whether a place is a folder. -/
def isFolderAt (t : FileTree) (place : List String) : Bool :=
  place.isPrefixOf t.directory || t.folders.any (place.isPrefixOf ·)
    || t.files.any fun (file, _) => place.isPrefixOf file && place ≠ file

/-- Whether a place is a file. -/
def isFileAt (t : FileTree) (place : List String) : Bool :=
  t.files.has place

/-- Goes on from a folder through the parts of a path. -/
def locateFrom (t : FileTree) (place : List String) :
    List String → Except AccessError (List String)
  | [] => .ok place
  | part :: rest =>
    if t.isFolderAt place then
      if Path.isLongPart part then .error .nameTooLong
      else locateFrom t (if part = ".." then place.dropLast else place ++ [part]) rest
    else if t.isFileAt place then .error .notFolder
    else .error .missing

/-- The place from which a path goes on through its parts, unless it cannot be followed at all. -/
def startOf (t : FileTree) (p : Path) : Except AccessError (List String) :=
  match p.nameFault? with
  | some fault => .error (.name fault)
  | none =>
    if Path.isLongText p.toString then .error .nameTooLong
    else .ok (if p.isAbsolute then [] else t.directory)

/-- The absolute place of a path; there need not be anything at that place. -/
def locate (t : FileTree) (p : Path) : Except AccessError (List String) :=
  match t.startOf p with
  | .error e => .error e
  | .ok place => t.locateFrom place p.parts

/-- What is at a place. -/
def kindAt? (t : FileTree) (place : List String) : Option PlaceKind :=
  if t.isFolderAt place then some .folder
  else if t.isFileAt place then some .file
  else none

/-- What a path leads to.  That it leads nowhere is no error, unless it is too long to tell. -/
def kind? (t : FileTree) (p : Path) : Except AccessError (Option PlaceKind) :=
  match t.locate p with
  | .ok place => .ok (t.kindAt? place)
  | .error .nameTooLong => .error .nameTooLong
  | .error _ => .ok none

/-- The text of a file. -/
def readText (t : FileTree) (p : Path) : Except AccessError String :=
  match t.locate p with
  | .error e => .error e
  | .ok place =>
    match t.files.get? place with
    | some (.text value) => .ok (String.ofList (unifyNewlines value.toList))
    | some .binary => .error .notText
    | none => if t.isFolderAt place then .error .isFolder else .error .missing

/-- The names of what a folder holds. -/
def names (t : FileTree) (p : Path) : List String :=
  match t.locate p with
  | .error _ => []
  | .ok place =>
    let below (other : List String) : Option String :=
      if place.isPrefixOf other then (other.drop place.length).head? else none
    ((t.files.keys ++ t.folders).filterMap below).eraseDups

/-- Adds a folder.  It stands for the folders that it lies in as well. -/
def addFolder (t : FileTree) (place : List String) : FileTree :=
  { t with folders := t.folders.filter (fun other => !other.isPrefixOf place) ++ [place] }

/-- Creates the folders on the way through the parts of a path, one after the other. -/
def makeFoldersFrom (t : FileTree) (place : List String) :
    List String → Except AccessError FileTree
  | [] => .ok t
  | part :: rest =>
    if part = ".." then makeFoldersFrom t place.dropLast rest
    else if Path.isLongPart part then .error .nameTooLong
    else
      let next := place ++ [part]
      match t.kindAt? next with
      | some .folder => makeFoldersFrom t next rest
      | some .file => .error .alreadyExists
      | none => makeFoldersFrom (t.addFolder next) next rest

/-- Creates a folder and those above it, as far as they are missing.  A path that cannot be followed
for another reason than a missing folder fails as it does in reading; otherwise its folders are
created one after the other, and a file in the place of one of them is in the way. -/
def makeFolder (t : FileTree) (p : Path) : Except AccessError FileTree := do
  let place ← t.startOf p
  match t.locateFrom place p.parts with
  | .ok _ | .error .missing => t.makeFoldersFrom place p.parts
  | .error e => .error e

/-- The files that are new or have changed since an earlier time. -/
def changesSince (t before : FileTree) : OrderedMap (List String) FileContent :=
  t.files.filter fun (place, content) => before.files.get? place ≠ some content

/-- Writes a text file into an existing folder.  A text that has no encoding leaves the file
empty. -/
def writeText (t : FileTree) (p : Path) (value : String) : FileTree × Option AccessError :=
  match t.locate p with
  | .error e => (t, some e)
  | .ok place =>
    let writing (value : String) : FileTree :=
      { t with files := t.files.insert place (.text value) }
    if t.isFolderAt place then (t, some .isFolder)
    else if isWellFormed value.toList then (writing value, none)
    else (writing "", some .notEncodable)

/-- Writes text files in turn; what was written before a failure stays written. -/
def writeAll (t : FileTree) : List (Path × String) → FileTree × Option AccessError
  | [] => (t, none)
  | (p, value) :: rest =>
    match t.writeText p value with
    | (t, none) => writeAll t rest
    | (t, some e) => (t, some e)

end FileTree

end MarkupTidy
