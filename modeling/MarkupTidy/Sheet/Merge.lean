import MarkupTidy.Sheet.Reader

/-! # Merging stylesheets

The stylesheets of the chunks of a component become one.  Typefaces are imported together, other
imports are kept once each, and what is declared under one name twice is declared once.

* `Sheet.mergeAll`: one stylesheet for several.
* `Sheet.merge?`: the same, unless no directive can name one of the families. -/

namespace MarkupTidy.Sheet

/-- What has been gathered from stylesheets so far. -/
structure Gathered where
  fonts : List FontUse
  /-- Imports other than of typefaces. -/
  imports : List String
  properties : Declarations
  utilities : OrderedMap String Rule
  rules : OrderedMap String Rule

namespace Gathered

/-- Nothing has been gathered. -/
def empty : Gathered := ⟨[], [], [], [], []⟩

/-- Adds an import directive. -/
def addImport (g : Gathered) (directive : String) : Gathered :=
  match importedFonts? directive with
  | some fonts => { g with fonts := g.fonts ++ fonts }
  | none =>
    if g.imports.contains directive then g else { g with imports := g.imports ++ [directive] }

/-- Adds a stylesheet.  A utility keeps its first rule; any other rule and the value of a property
are replaced in their place. -/
def add (g : Gathered) (sheet : Sheet) : Gathered :=
  let g := sheet.imports.foldl addImport g
  { g with
    properties := mergeDeclarations g.properties sheet.properties
    utilities := sheet.utilities.foldl (fun m rule => m.insertNew rule.selector rule) g.utilities
    rules := sheet.rules.foldl (fun m rule => m.insert rule.selector rule) g.rules }

/-- What has been gathered as one stylesheet. -/
def sheet (g : Gathered) : Sheet where
  imports := (fontImport? g.fonts).toList ++ g.imports
  properties := g.properties
  utilities := g.utilities.map Prod.snd
  rules := g.rules.map Prod.snd

end Gathered

/-- What several stylesheets hold together. -/
def gather (sheets : List Sheet) : Gathered := sheets.foldl Gathered.add .empty

/-- One stylesheet for several, the later ones counting where they differ. -/
def mergeAll (sheets : List Sheet) : Sheet := (gather sheets).sheet

/-- One stylesheet for several, or else the first family that no directive can name. -/
def merge? (sheets : List Sheet) : Except String Sheet :=
  match unencodableFamily? (gather sheets).fonts with
  | some family => .error family
  | none => .ok (mergeAll sheets)

end MarkupTidy.Sheet
