import MarkupTidy.Chunk.Parent
import MarkupTidy.Run.File
import MarkupTidy.Run.Pipeline
import MarkupTidy.Sheet.Merge

/-! # Tidying chunks

The chunks of a design are tidied one after the other, each in a context of its own.  When all
have succeeded, they are written, with one stylesheet for all of them and the parent component.

* `ChunkRun.ofChunks`: the design that tidied chunks make up.
* `Pipeline.tidyChunks`: tidies a design from its files.
* `ChunkRun.report`: what has been counted. -/

namespace MarkupTidy

/-- A tidied chunk. -/
structure TidyChunk where
  /-- The name of its component. -/
  name : String
  source : Path
  output : Path
  component : TidyComponent

/-- A tidied design. -/
structure ChunkRun where
  chunks : List TidyChunk
  parentSource : String
  stylesheet : String
  /-- The number of generated classes in the stylesheet. -/
  classes : Nat

namespace ChunkRun

/-- The heading of a stylesheet for several chunks. -/
def heading (chunks : Nat) : String :=
  "/* Auto-generated design tokens from Figma (consolidated from " ++ toString chunks
    ++ " chunks) */"

/-- The stylesheet for all chunks. -/
def sheet (chunks : List TidyChunk) : Sheet :=
  Sheet.mergeAll (chunks.map fun c => Sheet.read c.component.stylesheet.toList)

/-- The design that tidied chunks make up. -/
def ofChunks (chunks : List TidyChunk) (name : String) (wrapper : Element)
    (sheetName : String) : ChunkRun where
  chunks := chunks
  parentSource := Chunk.parentSource name (chunks.map TidyChunk.name) wrapper sheetName
  stylesheet := (sheet chunks).print (heading chunks.length)
  classes := (sheet chunks).rules.length

/-- The files of a tidied design, in the order in which they are written. -/
def files (r : ChunkRun) (output sheet : Path) : List (Path × String) :=
  (r.chunks.map fun c => (c.output, c.component.moduleSource none))
    ++ [(sheet, r.stylesheet), (output, r.parentSource)]

/-- The counters of all chunks together. -/
def totals (r : ChunkRun) : Counters :=
  r.chunks.foldl (fun total c => total.merge c.component.context.stats.totals) []

/-- The number of changes in all chunks. -/
def changes (r : ChunkRun) : Int :=
  r.chunks.foldl (fun total c => total + c.component.context.stats.changes) 0

/-- The number of placeholders that were left for the sweep of all chunks. -/
def found (r : ChunkRun) : Int :=
  r.chunks.foldl (fun total c => total + c.component.found) 0

/-- The number of placeholders that the sweep of all chunks has fixed. -/
def fixed (r : ChunkRun) : Int :=
  r.chunks.foldl (fun total c => total + c.component.fixed) 0

/-- The report of a design. -/
def report (r : ChunkRun) : Json.Value :=
  .object [
    ("chunks", .object (OrderedMap.ofEntries (r.chunks.map fun c => (c.name, c.component.report)))),
    ("totals", r.totals.report),
    ("totalFixes", .int r.changes),
    ("customClassesGenerated", .int r.classes),
    ("safetyNet", sweepReport r.found r.fixed)]

end ChunkRun

namespace Pipeline

/-- Tidies a chunk without writing anything. -/
def tidyChunk (p : Pipeline) (tree : FileTree) (design : VariableTable) (folder source : Path) :
    FileOutcome TidyChunk :=
  match tree.readText source with
  | .error e => .withoutAccess tree e
  | .ok text =>
    let name := String.ofList (Chunk.componentName source.stem.toList)
    let o := p.run (Context.new design (some ⟨tree, source.parent⟩)) text source.toString
    let result := match o.result with
      | .error fault => .error (.run fault)
      | .ok component => .ok ⟨name, source, folder.child (name ++ ".tsx"), component⟩
    ⟨tree, o.events, o.notices, result⟩

/-- Tidies chunks in turn until one fails, without writing anything. -/
def tidyEach (p : Pipeline) (tree : FileTree) (design : VariableTable) (folder : Path) :
    List Path → FileOutcome (List TidyChunk)
  | [] => ⟨tree, [], [], .ok []⟩
  | source :: rest =>
    let o := p.tidyChunk tree design folder source
    match o.result with
    | .error fault => ⟨tree, o.events, o.notices, .error fault⟩
    | .ok chunk =>
      let more := tidyEach p tree design folder rest
      ⟨tree, o.events ++ more.events, o.notices ++ more.notices, more.result.map (chunk :: ·)⟩

/-- The design that chunks make up together with the files beside them, and the path of its
stylesheet. -/
def assemble (tree : FileTree) (input output : Path) (chunks : List TidyChunk) :
    Except AccessError (ChunkRun × Path × List Notice) := do
  let source ← tree.readText input
  let name := (Chunk.exportedName? source.toList).elim "Component" String.ofList
  match stylesheetPath? output with
  | none => .error .emptyName
  | some sheet =>
    let (wrapper, notices) ← Chunk.wrapper tree input.parent
    return (ChunkRun.ofChunks chunks name wrapper sheet.name, sheet, notices)

/-- Tidies a design: its chunks, their stylesheet and the parent component. -/
def tidyChunks (p : Pipeline) (tree : FileTree) (design : VariableTable)
    (input output : Path) : FileOutcome ChunkRun :=
  match Chunk.find tree input with
  | .error e => .withoutAccess tree e
  | .ok sources =>
    let folder := output.parent.child Chunk.outputFolder
    let o := p.tidyEach tree design folder sources
    match o.result with
    | .error fault => ⟨tree, o.events, o.notices, .error fault⟩
    | .ok chunks =>
      match assemble tree input output chunks with
      | .error e => ⟨tree, o.events, o.notices, .error (.access e)⟩
      | .ok (run, sheet, notices) =>
        let (tree, error?) := tree.deliver folder (run.files output sheet)
        ⟨tree, o.events, o.notices ++ notices, FileFault.unless error? run⟩

end Pipeline

end MarkupTidy
