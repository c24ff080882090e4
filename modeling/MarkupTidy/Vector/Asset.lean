import MarkupTidy.File.Tree
import MarkupTidy.Notice
import MarkupTidy.Text.LetterCase
import MarkupTidy.Url.Path
import MarkupTidy.Vector.Svg

/-! # Vector assets

A component refers to an asset by a path relative to its folder, or by the address it is served
under; a served asset lies next to the component under its file name.

* `AssetFolder.resolve`: the path that a reference stands for.
* `AssetFolder.read`: the vector image behind a reference, if it is an SVG file that can be
  read. -/

namespace MarkupTidy

open MarkupTidy.Text

/-- The ways in which a reference to an asset is no reference at all. -/
inductive ReferenceFault where
  | host (fault : Url.HostFault)
  | name (fault : NameFault)
deriving DecidableEq, Repr

/-- The wording of a fault. -/
def ReferenceFault.message : ReferenceFault → String
  | host fault => fault.message
  | name fault => fault.message

/-- A folder with assets, in the tree of files around it. -/
structure AssetFolder where
  tree : FileTree
  base : Path

/-- The outcome of reading an asset: an image or none, and what is to be noticed. -/
structure AssetReading where
  image? : Option VectorImage
  notices : List Notice

namespace AssetFolder

/-- The path that a reference stands for. -/
def resolve (folder : AssetFolder) (reference : String) : Except ReferenceFault Path :=
  let cs := reference.toList
  if Url.isWebAddress cs then
    match Url.path cs with
    | .error fault => .error (.host fault)
    | .ok path =>
      .ok (folder.base.join (Path.ofString (Path.ofString (String.ofList path)).name))
  else
    let path := folder.base.join (Path.ofString reference)
    match path.resolveFault? with
    | some fault => .error (.name fault)
    | none => .ok (path.resolve folder.tree.directory)

/-- Whether a path has the ending of a vector graphic. -/
def isVector (p : Path) : Bool :=
  lowercase p.suffix.toList = ".svg".toList

/-- The image at a path. -/
def readAt (folder : AssetFolder) (path : Path) : Except ReferenceFault AssetReading :=
  if isVector path then
    match folder.tree.readText path with
    | .ok content => .ok ⟨some (VectorImage.read content.toList), []⟩
    | .error (.name fault) => .error (.name fault)
    | .error _ => .ok ⟨none, [.assetUnreadable path.toString]⟩
  else .ok ⟨none, []⟩

/-- The image behind a reference. -/
def read (folder : AssetFolder) (reference : String) : Except ReferenceFault AssetReading :=
  match folder.resolve reference with
  | .error fault => .error fault
  | .ok path => folder.readAt path

end AssetFolder

end MarkupTidy
