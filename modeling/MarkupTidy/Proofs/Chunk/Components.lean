import MarkupTidy.Chunk.Parent
import MarkupTidy.Proofs.Chunk.Delivery
import MarkupTidy.Proofs.Markup.Legible
import MarkupTidy.Proofs.Run.Passes
import MarkupTidy.Proofs.Sheet.Built
import MarkupTidy.Proofs.Text.Utf8

/-! # Components of chunks

The chunks of a design are tidied and shown in the order of their file names.  A component has a file
and a name of its own unless the words of another file name come to the same name, or that of the
parent component.

* `Chunk.parentSource_eq`: the source of a parent component, line by line: it imports the chunks and
  shows them, in order, each once.
* `ChunkRun.IsDelivered`: what a run over chunks leaves in every case; of chunks with one name the last
  one has the file.
* `ChunkRun.KeepsComponents`: every chunk has a component of its own.
* `Pipeline.tidyChunks_keepsComponents_iff`: the designs whose chunks do. -/

namespace MarkupTidy.Chunk

open MarkupTidy.Text

/-- The line that imports the component of a chunk. -/
def importLine (chunk : String) : String :=
  "import " ++ chunk ++ " from './" ++ outputFolder ++ "/" ++ chunk ++ "';\n"

/-- The line that shows the component of a chunk. -/
def shownLine (chunk : String) : String :=
  "\n      <" ++ chunk ++ " />"

/-- The source of a parent component that shows chunks inside a wrapper. -/
def parentLines (name : String) (chunks : List String) (wrapper : Element) (sheetName : String) :
    String :=
  "import React from 'react';\n" ++ String.join (chunks.map importLine) ++ "import './" ++ sheetName
    ++ "';\n\nexport default function " ++ name ++ "() \x7b\n  return (\n    "
    ++ String.ofList (openTag wrapper.tag wrapper.attributes false)
    ++ String.join (chunks.map shownLine)
    ++ "\n    " ++ String.ofList (closeTag wrapper.tag) ++ "\n  );\n\x7d\n"

theorem intercalate_lines (first last : String) (lines : List String) :
    "\n".intercalate (first :: lines ++ [last])
      = first ++ "\n" ++ String.join (lines.map (· ++ "\n")) ++ last := by
  induction lines generalizing first with
  | nil => simp
  | cons line lines ih =>
    rw [List.cons_append, String.intercalate_cons_of_ne_nil (by simp), ih, List.map_cons,
      String.join_cons]
    simp only [String.append_assoc]

theorem printLines_elements {chunks : List String} (h : ∀ chunk ∈ chunks, chunk ≠ "") :
    Node.printLines (chunks.map fun chunk => .element ⟨chunk, [], []⟩) "      ".toList
      = (String.join (chunks.map shownLine)).toList := by
  induction chunks with
  | nil => rfl
  | cons chunk rest ih =>
    obtain ⟨hchunk, hrest⟩ := List.forall_mem_cons.1 h
    rw [List.map_cons, Node.printLines, ih hrest, List.map_cons, String.join_cons,
      String.toList_append, Element.print_closed hchunk]
    simp [hchunk, openTag, shownLine]

/-- The wrapper with the chunks inside. -/
theorem print_wrapper {chunks : List String} (h : ∀ chunk ∈ chunks, chunk ≠ "") (hne : chunks ≠ [])
    (tag : String) (attributes : Attributes) :
    Element.print ⟨tag, attributes, chunks.map fun chunk => .element ⟨chunk, [], []⟩⟩ "    ".toList
      = openTag tag attributes false ++ (String.join (chunks.map shownLine)).toList
        ++ '\n' :: ("    ".toList ++ closeTag tag) := by
  have hlines : Node.OnLines tag (chunks.map fun chunk => .element ⟨chunk, [], []⟩) := by
    refine ⟨fun hnil => absurd (List.map_eq_nil_iff.1 hnil) hne, ?_, fun source heq => ?_⟩
    · simp [Node.isText]
    · obtain ⟨chunk, -, hchunk⟩ := List.map_eq_singleton_iff.1 heq
      simp at hchunk
  have hindent : "    ".toList ++ indentStep = "      ".toList := by decide
  rw [Element.print_lines hlines, hindent, printLines_elements h, List.append_assoc]

/-- A parent component imports the chunks, and it shows them inside the wrapper, in order. -/
theorem parentSource_eq {chunks : List String} (h : ∀ chunk ∈ chunks, chunk ≠ "")
    (hne : chunks ≠ []) (name : String) (wrapper : Element) (sheetName : String) :
    parentSource name chunks wrapper sheetName = parentLines name chunks wrapper sheetName := by
  unfold parentSource parentLines
  dsimp only
  rw [intercalate_lines, print_wrapper h hne]
  have himports : (chunks.map fun chunk => "import " ++ chunk ++ " from './" ++ outputFolder ++ "/"
      ++ chunk ++ "';").map (· ++ "\n") = chunks.map importLine := by
    rw [List.map_map]
    exact List.map_congr_left fun chunk _ => by simp [importLine, String.append_assoc]
  rw [himports]
  refine String.toList_injective ?_
  simp [String.toList_append, List.append_assoc]

theorem isWellFormed_parentLines {name : String} {chunks : List String} {wrapper : Element}
    {sheetName : String} (hname : isWellFormed name.toList = true)
    (hchunks : ∀ chunk ∈ chunks, isWellFormed chunk.toList = true)
    (hopen : isWellFormed (openTag wrapper.tag wrapper.attributes false) = true)
    (hclose : isWellFormed (closeTag wrapper.tag) = true)
    (hsheet : isWellFormed sheetName.toList = true) :
    isWellFormed (parentLines name chunks wrapper sheetName).toList = true := by
  have himports : isWellFormed (String.join (chunks.map importLine)).toList = true := by
    refine isWellFormed_join (List.forall_mem_map.2 fun chunk hchunk => ?_)
    unfold importLine
    simp only [String.toList_append, isWellFormed_append, hchunks chunk hchunk]
    decide +kernel
  have hshown : isWellFormed (String.join (chunks.map shownLine)).toList = true := by
    refine isWellFormed_join (List.forall_mem_map.2 fun chunk hchunk => ?_)
    unfold shownLine
    simp only [String.toList_append, isWellFormed_append, hchunks chunk hchunk]
    decide +kernel
  unfold parentLines
  simp only [String.toList_append, isWellFormed_append, String.toList_ofList, himports, hshown, hname,
    hopen, hclose, hsheet]
  decide +kernel

end MarkupTidy.Chunk

namespace MarkupTidy

open MarkupTidy.Text

/-- The name of the component that shows the chunks of a design. -/
def Chunk.parentName (source : String) : String :=
  (Chunk.exportedName? source.toList).elim "Component" String.ofList

namespace ChunkRun

/-- Every chunk has a component of its own: an output path on which no other is written, a file that
holds its source, and a name that is neither that of another chunk nor that of the parent. -/
structure KeepsComponents (r : ChunkRun) (parent : String) (tree : FileTree) : Prop where
  outputs : (r.chunks.map TidyChunk.output).Nodup
  own : ∀ c ∈ r.chunks, tree.Holds c.output (c.component.moduleSource none)
  names : (r.chunks.map TidyChunk.name).Nodup
  parent : parent ∉ r.chunks.map TidyChunk.name

/-- What a run over the chunks of a folder leaves. -/
structure IsDelivered (r : ChunkRun) (sources : List Path) (parent : String) (wrapper : Element)
    (sheet output : Path) (tree : FileTree) : Prop where
  source : r.chunks.map TidyChunk.source = sources
  sorted : (sources.map Path.name).Pairwise (· < ·)
  named : ∀ c ∈ r.chunks, c.name = Chunk.componentOf c.source
  placed : ∀ c ∈ r.chunks,
    c.output = (output.parent.child Chunk.outputFolder).child (c.name ++ ".tsx")
  /-- The parent component shows the chunks in that order. -/
  shown : sources ≠ [] → r.parentSource
    = Chunk.parentLines parent (r.chunks.map TidyChunk.name) wrapper sheet.name
  written : tree.Holds output r.parentSource
  /-- Of the chunks with one name the last has the file. -/
  last : ∀ before c after, r.chunks = before ++ c :: after → (∀ c' ∈ after, c'.name ≠ c.name) →
    tree.Holds c.output (c.component.moduleSource none)

end ChunkRun

namespace Pipeline

variable {p : Pipeline} {tree : FileTree} {design : VariableTable} {input output : Path}

/-! ### What is tidied -/

theorem assemble_eq_ok_iff {chunks : List TidyChunk} {r : ChunkRun} {sheet : Path}
    {notices : List Notice} : assemble tree input output chunks = .ok (r, sheet, notices) ↔
      ∃ source wrapper, tree.readText input = .ok source ∧ stylesheetPath? output = some sheet ∧
        Chunk.wrapper tree input.parent = .ok (wrapper, notices) ∧
        r = .ofChunks chunks (Chunk.parentName source) wrapper sheet.name := by
  unfold assemble
  cases hread : tree.readText input with
  | error e => simp [bind, Except.bind]
  | ok source =>
    dsimp only [bind, Except.bind]
    cases hsheet : stylesheetPath? output with
    | none => simp
    | some path =>
      cases hwrapper : Chunk.wrapper tree input.parent with
      | error e => simp
      | ok wrapped =>
        constructor
        · intro h
          obtain ⟨rfl, rfl, rfl⟩ : _ ∧ path = sheet ∧ wrapped.2 = notices := by
            simpa [pure, Except.pure] using h
          exact ⟨source, wrapped.1, rfl, rfl, rfl, rfl⟩
        · rintro ⟨_, wrapper, hsource, hpath, hwrapped, rfl⟩
          obtain rfl := Except.ok.inj hsource
          obtain rfl := Option.some.inj hpath
          obtain rfl := Except.ok.inj hwrapped
          rfl

/-- Once all chunks are tidied and what stands beside them is read, the design is delivered. -/
theorem tidyChunks_of_assemble {sources : List Path} {chunks : List TidyChunk} {r : ChunkRun}
    {sheet : Path} {notices : List Notice} (hfind : Chunk.find tree input = .ok sources)
    (heach : (p.tidyEach tree design (output.parent.child Chunk.outputFolder) sources).result
      = .ok chunks)
    (hassemble : assemble tree input output chunks = .ok (r, sheet, notices)) :
    (p.tidyChunks tree design input output).tree
        = (tree.deliver (output.parent.child Chunk.outputFolder) (r.files output sheet)).1 ∧
      (p.tidyChunks tree design input output).result = FileFault.unless
        (tree.deliver (output.parent.child Chunk.outputFolder) (r.files output sheet)).2 r := by
  unfold tidyChunks
  rw [hfind]
  dsimp only
  rw [heach]
  dsimp only
  rw [hassemble]
  exact ⟨rfl, rfl⟩

/-- A design that is tidied: its chunks are, what stands beside them can be read, and all is
written. -/
theorem exists_of_result_tidyChunks {r : ChunkRun}
    (h : (p.tidyChunks tree design input output).result = .ok r) :
    ∃ sources sheet notices, Chunk.find tree input = .ok sources ∧
      (p.tidyEach tree design (output.parent.child Chunk.outputFolder) sources).result
        = .ok r.chunks ∧
      assemble tree input output r.chunks = .ok (r, sheet, notices) ∧
      tree.deliver (output.parent.child Chunk.outputFolder) (r.files output sheet)
        = ((p.tidyChunks tree design input output).tree, none) := by
  cases hfind : Chunk.find tree input with
  | error e =>
    unfold tidyChunks at h
    rw [hfind] at h
    exact absurd h (by simp [FileOutcome.withoutAccess])
  | ok sources =>
    cases heach : (p.tidyEach tree design (output.parent.child Chunk.outputFolder) sources).result with
    | error fault => exact absurd (h.symm.trans (result_tidyChunks_of_error hfind heach)) (by simp)
    | ok chunks =>
      cases hassemble : assemble tree input output chunks with
      | error e =>
        unfold tidyChunks at h
        rw [hfind] at h
        dsimp only at h
        rw [heach] at h
        dsimp only at h
        rw [hassemble] at h
        exact absurd h (by simp)
      | ok assembled =>
        obtain ⟨r', sheet, notices⟩ := assembled
        obtain ⟨htree, hresult⟩ := tidyChunks_of_assemble hfind heach hassemble
        rw [h] at hresult
        unfold FileFault.unless at hresult
        split at hresult
        · exact absurd hresult (by simp)
        · rename_i hnone
          obtain rfl := Except.ok.inj hresult
          obtain ⟨_, _, -, -, -, hr⟩ := assemble_eq_ok_iff.1 hassemble
          have hchunks : r.chunks = chunks := by rw [hr]; rfl
          rw [hchunks]
          exact ⟨sources, sheet, notices, rfl, heach, hassemble, Prod.ext htree.symm hnone⟩

/-- The chunks are those that have been found, each with its own name and path. -/
theorem chunks_of_tidyEach {folder : Path} {sources : List Path} {chunks : List TidyChunk}
    (h : (p.tidyEach tree design folder sources).result = .ok chunks) :
    chunks.map TidyChunk.source = sources ∧ ∀ c ∈ chunks, c.name = Chunk.componentOf c.source ∧
      c.output = folder.child (c.name ++ ".tsx") := by
  have heach := result_tidyEach_iff.1 h
  clear h
  induction heach with
  | nil => exact ⟨rfl, List.forall_mem_nil _⟩
  | cons hchunk _ ih =>
    obtain ⟨text, component, -, -, rfl⟩ := result_tidyChunk_iff.1 hchunk
    exact ⟨by rw [List.map_cons, ih.1], List.forall_mem_cons.2 ⟨⟨rfl, rfl⟩, ih.2⟩⟩

/-! ### Where it is written -/

theorem eq_of_fileName {name name' : String} (h : name ++ ".tsx" = name' ++ ".tsx") : name = name' := by
  have hlist := congrArg String.toList h
  simp only [String.toList_append] at hlist
  exact String.toList_injective (List.append_cancel_right hlist)

/-- A component lies in the folder of tidied chunks. -/
theorem exists_place_of_chunk {t : FileTree} {folder : Path} {name : String} {place : List String}
    (h : t.locate ((folder.child Chunk.outputFolder).child (name ++ ".tsx")) = .ok place) :
    ∃ base, t.locateFrom (t.origin folder) folder.parts = .ok base ∧
      place = base ++ [Chunk.outputFolder, name ++ ".tsx"] := by
  have hname : name ++ ".tsx" ≠ ".." := by
    intro heq
    have hlast := congrArg (fun s : String => s.toList.getLast?) heq
    simp at hlast
  obtain ⟨above, habove, -, rfl⟩ := FileTree.exists_above_of_locate h
  obtain ⟨base, hbase, hchild⟩ := FileTree.locateFrom_append_ok_iff.1 habove
  obtain ⟨-, -, rfl⟩ := FileTree.locateFrom_singleton_ok_iff.1 hchild
  refine ⟨base, hbase, ?_⟩
  rw [if_neg hname, if_neg (by decide), List.append_assoc, List.singleton_append]

/-- What lies beside the folder of tidied chunks is no component in it. -/
theorem locate_chunk_ne {t : FileTree} {folder : Path} {name part : String} {place : List String}
    (h : t.locate ((folder.child Chunk.outputFolder).child (name ++ ".tsx")) = .ok place) :
    t.locate (folder.child part) ≠ .ok place := by
  intro hother
  obtain ⟨base, hbase, rfl⟩ := exists_place_of_chunk h
  obtain ⟨above, habove, -, hplace⟩ := FileTree.exists_above_of_locate hother
  obtain rfl := Except.ok.inj (hbase.symm.trans habove)
  have hlength := congrArg List.length hplace
  split at hlength
  · simp only [List.length_append, List.length_cons, List.length_nil, List.length_dropLast] at hlength
    omega
  · simp at hlength

/-- Components of different names have different places. -/
theorem eq_of_locate_chunk {t : FileTree} {folder : Path} {name name' : String}
    {place : List String}
    (h : t.locate ((folder.child Chunk.outputFolder).child (name ++ ".tsx")) = .ok place)
    (h' : t.locate ((folder.child Chunk.outputFolder).child (name' ++ ".tsx")) = .ok place) :
    name = name' := by
  obtain ⟨base, hbase, rfl⟩ := exists_place_of_chunk h
  obtain ⟨base', hbase', hplace⟩ := exists_place_of_chunk h'
  obtain rfl := Except.ok.inj (hbase.symm.trans hbase')
  exact eq_of_fileName (by simpa using hplace)

theorem eq_child_of_stylesheetPath? {sheet : Path} (h : stylesheetPath? output = some sheet) :
    sheet = output.parent.child (output.stem ++ ".css") ∧ output = output.parent.child output.name := by
  unfold stylesheetPath? Path.withSuffix? at h
  split at h
  · exact absurd h (by simp)
  · rename_i hparts
    refine ⟨(Option.some.inj h).symm, ?_⟩
    obtain ⟨parts, last, hlast⟩ := (List.eq_nil_or_concat output.parts).resolve_left
      (by simpa using hparts)
    cases output
    simp_all [Path.child, Path.parent, Path.name]

/-- A component stands in its file unless a later one has its name: nothing that is written after them
goes into their folder. -/
theorem holds_of_last {folder sheet : Path} {r : ChunkRun} {t : FileTree}
    {before after : List TidyChunk} {c : TidyChunk}
    (houtputs : ∀ c ∈ r.chunks, c.output = (folder.child Chunk.outputFolder).child (c.name ++ ".tsx"))
    (hsheet : ∃ part, sheet = folder.child part) (houtput : ∃ part, output = folder.child part)
    (hdeliver : tree.deliver (folder.child Chunk.outputFolder) (r.files output sheet) = (t, none))
    (hchunks : r.chunks = before ++ c :: after) (hlast : ∀ c' ∈ after, c'.name ≠ c.name) :
    t.Holds c.output (c.component.moduleSource none) := by
  obtain ⟨made, -, hwritten⟩ := FileTree.deliver_eq_none hdeliver
  have hplaces := (FileTree.sameFolders_writeAll hwritten).2
  have hchunk : c.output = (folder.child Chunk.outputFolder).child (c.name ++ ".tsx") :=
    houtputs c (by simp [hchunks])
  obtain ⟨place, hplace, -⟩ := hplaces (c.output, c.component.moduleSource none)
    (by simp [ChunkRun.files, hchunks])
  have hbeside : ∀ part, made.locate (folder.child part) ≠ made.locate c.output := fun part heq =>
    locate_chunk_ne (hchunk ▸ hplace) (heq.trans hplace)
  unfold ChunkRun.files at hwritten
  rw [hchunks, List.map_append, List.map_cons, List.append_assoc, List.cons_append] at hwritten
  refine FileTree.holds_of_writeAll hwritten fun other hother heq => ?_
  rw [List.mem_append, List.mem_cons, List.mem_singleton] at hother
  obtain hother | rfl | rfl := hother
  · obtain ⟨c', hc', rfl⟩ := List.mem_map.1 hother
    have hchunk' := houtputs c' (by simp [hchunks, hc'])
    have hplace' : made.locate c'.output = .ok place := heq.trans hplace
    exact hlast c' hc' (eq_of_locate_chunk (hchunk' ▸ hplace') (hchunk ▸ hplace))
  · obtain ⟨part, rfl⟩ := hsheet
    exact hbeside part heq
  · obtain ⟨part, rfl⟩ := houtput
    exact hbeside part heq

/-! ### Who keeps a component -/

/-- The chunks that are found have file names in order. -/
theorem pairwise_name_of_find {sources : List Path} (h : Chunk.find tree input = .ok sources) :
    (sources.map Path.name).Pairwise (· < ·) := by
  obtain rfl | rfl := Chunk.find_cases h
  · exact List.Pairwise.nil
  · have hname : Path.name ∘ (input.parent.child Chunk.sourceFolder).child = id := by
      funext name
      simp [Path.child, Path.name]
    rw [List.map_map, hname, List.map_id]
    exact Chunk.pairwise_lt_namesIn ..

/-- The components have names of their own exactly if no two file names come to one. -/
theorem nodup_names_iff {chunks : List TidyChunk}
    (h : ∀ c ∈ chunks, c.name = Chunk.componentOf c.source) :
    (chunks.map TidyChunk.name).Nodup ↔ (chunks.map TidyChunk.source).Pairwise
      fun s s' => ¬ Chunk.Clash s.stem.toList s'.stem.toList := by
  rw [List.Nodup, List.map_congr_left h, List.pairwise_map, List.pairwise_map]
  exact ⟨fun h => h.imp fun hne hclash => hne ((Chunk.componentOf_eq_iff ..).2 hclash),
    fun h => h.imp fun hne heq => hne ((Chunk.componentOf_eq_iff ..).1 heq)⟩

/-- A tidied design stands where it was to be written. -/
theorem isDelivered_tidyChunks {r : ChunkRun}
    (h : (p.tidyChunks tree design input output).result = .ok r) :
    ∃ sources source sheet wrapper, Chunk.find tree input = .ok sources ∧
      tree.readText input = .ok source ∧ stylesheetPath? output = some sheet ∧
      r.IsDelivered sources (Chunk.parentName source) wrapper sheet output
        (p.tidyChunks tree design input output).tree := by
  obtain ⟨sources, sheet, notices, hfind, heach, hassemble, hdeliver⟩ := exists_of_result_tidyChunks h
  obtain ⟨source, wrapper, hsource, hsheet, -, hr⟩ := assemble_eq_ok_iff.1 hassemble
  obtain ⟨hsources, hchunks⟩ := chunks_of_tidyEach heach
  obtain ⟨hsheetChild, houtputChild⟩ := eq_child_of_stylesheetPath? hsheet
  refine ⟨sources, source, sheet, wrapper, hfind, hsource, hsheet, hsources,
    pairwise_name_of_find hfind, fun c hc => (hchunks c hc).1, fun c hc => (hchunks c hc).2,
    fun hne => ?_, ?_, fun _ _ _ => holds_of_last (fun c hc => (hchunks c hc).2) ⟨_, hsheetChild⟩
      ⟨_, houtputChild⟩ hdeliver⟩
  · have hparent : r.parentSource = Chunk.parentSource (Chunk.parentName source)
        (r.chunks.map TidyChunk.name) wrapper sheet.name := by
      rw [hr]
      rfl
    rw [hparent]
    refine Chunk.parentSource_eq (List.forall_mem_map.2 fun c hc => ?_) ?_ _ _ _
    · rw [(hchunks c hc).1]
      exact Chunk.componentOf_ne_empty _
    · rw [← hsources] at hne
      simpa using hne
  · obtain ⟨made, -, hwritten⟩ := FileTree.deliver_eq_none hdeliver
    unfold ChunkRun.files at hwritten
    rw [show [(sheet, r.stylesheet), (output, r.parentSource)]
      = [(sheet, r.stylesheet)] ++ [(output, r.parentSource)] from rfl, ← List.append_assoc] at hwritten
    exact FileTree.holds_of_writeAll hwritten (List.forall_mem_nil _)

end Pipeline

/-- The chunks of a delivered design keep their components exactly if no two file names come to one
component name, and none to that of the parent. -/
theorem ChunkRun.IsDelivered.keepsComponents_iff {r : ChunkRun} {sources : List Path}
    {parent : String} {wrapper : Element} {sheet output : Path} {tree : FileTree}
    (h : r.IsDelivered sources parent wrapper sheet output tree) :
    r.KeepsComponents parent tree ↔
      sources.Pairwise (fun s s' => ¬ Chunk.Clash s.stem.toList s'.stem.toList) ∧
        ∀ s ∈ sources, Chunk.componentOf s ≠ parent := by
  rw [← h.source, ← Pipeline.nodup_names_iff h.named, List.forall_mem_map]
  constructor
  · intro hkeeps
    refine ⟨hkeeps.names, fun c hc heq => hkeeps.parent ?_⟩
    exact List.mem_map.2 ⟨c, hc, (h.named c hc).trans heq⟩
  · rintro ⟨hnames, hparent⟩
    have houtputs : (r.chunks.map TidyChunk.output).Nodup := by
      rw [List.Nodup, List.pairwise_map] at hnames ⊢
      refine List.Pairwise.imp_of_mem ?_ hnames
      intro c c' hc hc' hne heq
      rw [h.placed c hc, h.placed c' hc'] at heq
      exact hne (Pipeline.eq_of_fileName (by simpa [Path.child] using heq))
    refine ⟨houtputs, fun c hc => ?_, hnames, fun hmem => ?_⟩
    · obtain ⟨before, after, hsplit⟩ := List.append_of_mem hc
      refine h.last before c after hsplit fun c' hc' heq => ?_
      rw [hsplit, List.map_append, List.map_cons, List.nodup_append, List.nodup_cons] at hnames
      exact hnames.2.1.1 (List.mem_map.2 ⟨c', hc', heq⟩)
    · obtain ⟨c, hc, heq⟩ := List.mem_map.1 hmem
      exact hparent c hc ((h.named c hc).symm.trans heq)

namespace Pipeline

variable {p : Pipeline} {tree : FileTree} {design : VariableTable} {input output : Path}

/-- A tidied design stands where it was to be written, and its chunks keep their components exactly if
no two file names come to one component name, and none to that of the parent. -/
theorem tidyChunks_keepsComponents_iff {r : ChunkRun}
    (h : (p.tidyChunks tree design input output).result = .ok r) :
    ∃ sources source sheet wrapper, Chunk.find tree input = .ok sources ∧
      tree.readText input = .ok source ∧ stylesheetPath? output = some sheet ∧
      r.IsDelivered sources (Chunk.parentName source) wrapper sheet output
        (p.tidyChunks tree design input output).tree ∧
      (r.KeepsComponents (Chunk.parentName source) (p.tidyChunks tree design input output).tree ↔
        sources.Pairwise (fun s s' => ¬ Chunk.Clash s.stem.toList s'.stem.toList) ∧
          ∀ s ∈ sources, Chunk.componentOf s ≠ Chunk.parentName source) := by
  obtain ⟨sources, source, sheet, wrapper, hfind, hsource, hsheet, hdelivered⟩ :=
    isDelivered_tidyChunks h
  exact ⟨sources, source, sheet, wrapper, hfind, hsource, hsheet, hdelivered,
    hdelivered.keepsComponents_iff⟩

/-! ### Two chunks -/

/-- The stylesheet of a component without classes and typefaces. -/
def plainSheet : Sheet :=
  .build .empty .empty []

theorem read_plainSheet : Sheet.read (plainSheet.print Sheet.heading).toList = plainSheet := by
  have hplain : Sheet.ArePlain .empty .empty :=
    ⟨List.forall_mem_nil _, List.forall_mem_nil _, List.forall_mem_nil _⟩
  have hwell := Sheet.isWellFormed_build hplain []
  have hlegible := (Sheet.isLegible_build_iff .empty .empty []).2
    ⟨by decide +kernel, List.forall_mem_nil _⟩
  have himports := Sheet.hasNoOtherImports_of_not_mem (hwell.isPrinted hlegible) (by decide +kernel)
  exact Sheet.read_printed hwell hlegible himports

/-- What is written of a chunk: its name, its path, its module and its stylesheet. -/
def writtenOf (c : TidyChunk) : String × Path × String × String :=
  (c.name, c.output, c.component.moduleSource none, c.component.stylesheet)

/-- The files of a design whose chunks have no classes and no typefaces, by what is written of the
chunks. -/
def plainFiles (written : List (String × Path × String × String)) (parent : String)
    (wrapper : Element) (sheet output : Path) : List (Path × String) :=
  written.map (fun w => (w.2.1, w.2.2.1)) ++
    [(sheet, (Sheet.mergeAll (written.map fun _ => plainSheet)).print (ChunkRun.heading written.length)),
      (output, Chunk.parentSource parent (written.map Prod.fst) wrapper sheet.name)]

theorem files_eq_plainFiles {chunks : List TidyChunk}
    (h : ∀ c ∈ chunks, c.component.stylesheet = plainSheet.print Sheet.heading) (parent : String)
    (wrapper : Element) (sheet output : Path) :
    (ChunkRun.ofChunks chunks parent wrapper sheet.name).files output sheet
      = plainFiles (chunks.map writtenOf) parent wrapper sheet output := by
  have hread : ChunkRun.sheet chunks = Sheet.mergeAll ((chunks.map writtenOf).map fun _ => plainSheet) := by
    rw [ChunkRun.sheet, List.map_map]
    refine congrArg _ (List.map_congr_left fun c hc => ?_)
    rw [h c hc, read_plainSheet]
    rfl
  unfold ChunkRun.files ChunkRun.ofChunks plainFiles
  rw [hread]
  simp only [List.map_map, List.length_map]
  rfl

/-- Such a design is tidied if its chunks are and all can be written. -/
theorem exists_result_tidyChunks {sources : List Path} {source : String} {wrapper : Element}
    {notices : List Notice} {sheet : Path} {written : List (String × Path × String × String)}
    (hfind : Chunk.find tree input = .ok sources)
    (heach : (p.tidyEach tree design (output.parent.child Chunk.outputFolder) sources).result.toOption.map
      (·.map writtenOf) = some written)
    (hplain : ∀ w ∈ written, w.2.2.2 = plainSheet.print Sheet.heading)
    (hsource : tree.readText input = .ok source) (hsheet : stylesheetPath? output = some sheet)
    (hwrapper : Chunk.wrapper tree input.parent = .ok (wrapper, notices))
    (hdeliver : (tree.deliver (output.parent.child Chunk.outputFolder)
      (plainFiles written (Chunk.parentName source) wrapper sheet output)).2 = none) :
    ∃ r, (p.tidyChunks tree design input output).result = .ok r ∧
      r.chunks.map writtenOf = written := by
  cases hchunks : (p.tidyEach tree design (output.parent.child Chunk.outputFolder) sources).result with
  | error fault => rw [hchunks] at heach; exact absurd heach (by simp [Except.toOption])
  | ok chunks =>
    rw [hchunks] at heach
    obtain rfl : chunks.map writtenOf = written := Option.some.inj heach
    have hassemble : assemble tree input output chunks
        = .ok (.ofChunks chunks (Chunk.parentName source) wrapper sheet.name, sheet, notices) :=
      assemble_eq_ok_iff.2 ⟨source, wrapper, hsource, hsheet, hwrapper, rfl⟩
    obtain ⟨-, hresult⟩ := tidyChunks_of_assemble hfind hchunks hassemble
    rw [files_eq_plainFiles fun c hc => hplain _ (List.mem_map_of_mem hc), hdeliver] at hresult
    exact ⟨_, hresult, rfl⟩

/-- A design in two chunks. -/
def twoChunks (first second : String) : FileTree where
  directory := ["work"]
  files := [(["work", "in.tsx"], .text "<div />"), (["work", "chunks", first], .text "<p />"),
    (["work", "chunks", second], .text "<b />")]
  folders := []

/-- A path from the working directory. -/
def atWork (parts : List String) : Path :=
  ⟨.workingDirectory, parts⟩

theorem find_twoChunks {first second : String}
    (hkind : (twoChunks first second).kind? (atWork ["chunks"]) = .ok (some .folder))
    (hnames : ((twoChunks first second).names (atWork ["chunks"])).filter Chunk.isChunkName
      = [first, second]) (hle : first ≤ second) :
    Chunk.find (twoChunks first second) (atWork ["in.tsx"])
      = .ok [atWork ["chunks", first], atWork ["chunks", second]] := by
  have hinput : (atWork ["in.tsx"]).parent.child Chunk.sourceFolder = atWork ["chunks"] := rfl
  rw [Chunk.find_eq_of_isFolder (hinput ▸ hkind) (by decide), hinput,
    Chunk.namesIn_eq_of_pairwise hnames (by simpa using hle)]
  rfl

/-- What is written of the chunks. -/
def twoWritten (first second : String) : List (String × Path × String × String) :=
  [(first, atWork ["chunks-fixed", first ++ ".tsx"], "import React from 'react';\n<p />",
      plainSheet.print Sheet.heading),
    (second, atWork ["chunks-fixed", second ++ ".tsx"], "import React from 'react';\n<b />",
      plainSheet.print Sheet.heading)]

/-- The files of the design. -/
def twoFiles (first second : String) : List (Path × String) :=
  plainFiles (twoWritten first second) "Component" Chunk.plainWrapper (atWork ["out.css"])
    (atWork ["out.tsx"])

theorem isWellFormed_twoFiles {first second : String} (hne : first ≠ "" ∧ second ≠ "")
    (h : isWellFormed first.toList = true ∧ isWellFormed second.toList = true) :
    ∀ file ∈ twoFiles first second, isWellFormed file.2.toList = true := by
  have hsheet : isWellFormed ((Sheet.mergeAll [plainSheet, plainSheet]).print
      (ChunkRun.heading 2)).toList = true :=
    isWellFormed_lines (by decide +kernel)
  have hparent : isWellFormed (Chunk.parentSource "Component" [first, second] Chunk.plainWrapper
      "out.css").toList = true := by
    rw [Chunk.parentSource_eq (by simpa using hne) (by simp)]
    exact Chunk.isWellFormed_parentLines (by decide +kernel) (by simpa using h) (by decide +kernel)
      (by decide +kernel) (by decide +kernel)
  simp only [twoFiles, plainFiles, twoWritten, List.map_cons, List.map_nil, List.cons_append,
    List.nil_append, List.forall_mem_cons]
  exact ⟨by decide +kernel, by decide +kernel, hsheet, hparent, List.forall_mem_nil _⟩

/-- A design in two chunks is tidied if its chunks are and its files can be written. -/
theorem exists_result_twoChunks {first second name name' : String} {made : FileTree}
    (hfind : Chunk.find (twoChunks first second) (atWork ["in.tsx"])
      = .ok [atWork ["chunks", first], atWork ["chunks", second]])
    (heach : (Pipeline.usual.tidyEach (twoChunks first second) .empty (atWork ["chunks-fixed"])
      [atWork ["chunks", first], atWork ["chunks", second]]).result.toOption.map
        (·.map writtenOf) = some (twoWritten name name'))
    (hsource : (twoChunks first second).readText (atWork ["in.tsx"]) = .ok "<div />")
    (hwrapper : (twoChunks first second).kind? (atWork [Chunk.wrapperFile]) = .ok none)
    (hmade : (twoChunks first second).makeFolder (atWork ["chunks-fixed"]) = .ok made)
    (htakes : ∀ file ∈ twoFiles name name', made.Takes file.1)
    (htexts : ∀ file ∈ twoFiles name name', isWellFormed file.2.toList = true) :
    ∃ r, (Pipeline.usual.tidyChunks (twoChunks first second) .empty (atWork ["in.tsx"])
        (atWork ["out.tsx"])).result = .ok r ∧ r.chunks.map writtenOf = twoWritten name name' := by
  have hplain : ∀ w ∈ twoWritten name name', w.2.2.2 = plainSheet.print Sheet.heading := by
    simp [twoWritten]
  have hsheet : stylesheetPath? (atWork ["out.tsx"]) = some (atWork ["out.css"]) := by decide +kernel
  have hparent : Chunk.parentName "<div />" = "Component" := by decide +kernel
  have hplainWrapper : Chunk.wrapper (twoChunks first second) (atWork ["in.tsx"]).parent
      = .ok (Chunk.plainWrapper, []) := by
    unfold Chunk.wrapper
    dsimp only
    rw [show (atWork ["in.tsx"]).parent.child Chunk.wrapperFile = atWork [Chunk.wrapperFile] from rfl,
      hwrapper]
  have hdeliver : ((twoChunks first second).deliver (atWork ["chunks-fixed"])
      (twoFiles name name')).2 = none := by
    unfold FileTree.deliver
    rw [hmade]
    exact FileTree.writeAll_eq_none_of_takes fun file hfile => ⟨htakes file hfile, htexts file hfile⟩
  exact exists_result_tidyChunks hfind heach hplain hsource hsheet hplainWrapper (hparent ▸ hdeliver)

/-- Two chunks with names of their own keep their components. -/
theorem ab_keepsComponents : ∃ r,
    (Pipeline.usual.tidyChunks (twoChunks "a.tsx" "b.tsx") .empty (atWork ["in.tsx"])
      (atWork ["out.tsx"])).result = .ok r ∧
    r.chunks.map writtenOf = twoWritten "A" "B" ∧
    r.KeepsComponents "Component" (Pipeline.usual.tidyChunks (twoChunks "a.tsx" "b.tsx") .empty
      (atWork ["in.tsx"]) (atWork ["out.tsx"])).tree := by
  have hfind : Chunk.find (twoChunks "a.tsx" "b.tsx") (atWork ["in.tsx"])
      = .ok [atWork ["chunks", "a.tsx"], atWork ["chunks", "b.tsx"]] :=
    find_twoChunks (by decide +kernel) (by decide +kernel) (by decide +kernel)
  have hsource : (twoChunks "a.tsx" "b.tsx").readText (atWork ["in.tsx"]) = .ok "<div />" := by
    decide +kernel
  have hmade : (twoChunks "a.tsx" "b.tsx").makeFolder (atWork ["chunks-fixed"])
      = .ok { twoChunks "a.tsx" "b.tsx" with folders := [["work", "chunks-fixed"]] } := rfl
  obtain ⟨r, hr, hwritten⟩ : ∃ r, (usual.tidyChunks (twoChunks "a.tsx" "b.tsx") .empty
      (atWork ["in.tsx"]) (atWork ["out.tsx"])).result = .ok r ∧
      r.chunks.map writtenOf = twoWritten "A" "B" :=
    exists_result_twoChunks hfind (by decide +kernel) hsource (by decide +kernel) hmade
      (by decide +kernel) (isWellFormed_twoFiles (by decide) (by decide +kernel))
  obtain ⟨sources, source, -, -, hsources, hsource', -, -, hiff⟩ := tidyChunks_keepsComponents_iff hr
  obtain rfl := Except.ok.inj (hfind.symm.trans hsources)
  obtain rfl := Except.ok.inj (hsource.symm.trans hsource')
  have hparent : Chunk.parentName "<div />" = "Component" := by decide +kernel
  rw [hparent] at hiff
  exact ⟨r, hr, hwritten, hiff.2 ⟨by decide +kernel, by decide +kernel⟩⟩

/-- Two chunks whose file names differ in a mark alone have one component, and the first is lost. -/
theorem abMarks_not_kept : ∃ r,
    (Pipeline.usual.tidyChunks (twoChunks "a-b.tsx" "a_b.tsx") .empty (atWork ["in.tsx"])
      (atWork ["out.tsx"])).result = .ok r ∧
    r.chunks.map writtenOf = twoWritten "AB" "AB" ∧
    ¬ r.KeepsComponents "Component" (Pipeline.usual.tidyChunks (twoChunks "a-b.tsx" "a_b.tsx") .empty
      (atWork ["in.tsx"]) (atWork ["out.tsx"])).tree ∧
    ¬ (Pipeline.usual.tidyChunks (twoChunks "a-b.tsx" "a_b.tsx") .empty (atWork ["in.tsx"])
      (atWork ["out.tsx"])).tree.Holds (atWork ["chunks-fixed", "AB.tsx"])
        "import React from 'react';\n<p />" := by
  have hfind : Chunk.find (twoChunks "a-b.tsx" "a_b.tsx") (atWork ["in.tsx"])
      = .ok [atWork ["chunks", "a-b.tsx"], atWork ["chunks", "a_b.tsx"]] :=
    find_twoChunks (by decide +kernel) (by decide +kernel) (by decide +kernel)
  have hmade : (twoChunks "a-b.tsx" "a_b.tsx").makeFolder (atWork ["chunks-fixed"])
      = .ok { twoChunks "a-b.tsx" "a_b.tsx" with folders := [["work", "chunks-fixed"]] } := rfl
  obtain ⟨r, hr, hwritten⟩ : ∃ r, (usual.tidyChunks (twoChunks "a-b.tsx" "a_b.tsx") .empty
      (atWork ["in.tsx"]) (atWork ["out.tsx"])).result = .ok r ∧
      r.chunks.map writtenOf = twoWritten "AB" "AB" :=
    exists_result_twoChunks hfind (by decide +kernel) (by decide +kernel) (by decide +kernel) hmade
      (by decide +kernel) (isWellFormed_twoFiles (by decide) (by decide +kernel))
  obtain ⟨_, _, _, _, -, -, -, hdelivered⟩ := isDelivered_tidyChunks hr
  obtain ⟨first, rest, hchunks, hfirst, hrest⟩ := List.map_eq_cons_iff.1 hwritten
  obtain ⟨second, rfl, hsecond⟩ := List.map_eq_singleton_iff.1 hrest
  refine ⟨r, hr, hwritten, fun hkeeps => ?_, fun hlost => ?_⟩
  · have hname : first.name = second.name :=
      (congrArg Prod.fst hfirst).trans (congrArg Prod.fst hsecond).symm
    have hnames := hkeeps.names
    simp [hchunks, hname] at hnames
  · have hlast := hdelivered.last [first] second [] hchunks (List.forall_mem_nil _)
    have houtput : second.output = atWork ["chunks-fixed", "AB.tsx"] :=
      (congrArg (fun w => w.2.1) hsecond).trans (by decide +kernel)
    have hsource : second.component.moduleSource none = "import React from 'react';\n<b />" :=
      congrArg (fun w => w.2.2.1) hsecond
    rw [houtput, hsource] at hlast
    exact absurd (hlost.unique hlast) (by decide +kernel)

end Pipeline

end MarkupTidy
