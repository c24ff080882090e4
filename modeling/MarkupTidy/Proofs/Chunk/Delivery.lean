import Mathlib.Data.List.Forall2
import MarkupTidy.Chunk.Run
import MarkupTidy.Proofs.Chunk.Name
import MarkupTidy.Proofs.File.Tree

/-! # From tidying to writing

A component, or all chunks of a design, are tidied before the first file is written.

* `FileOutcome.IsDelivery`: nothing is written but by one delivery at the end.
* `Pipeline.isDelivery_tidyFile`, `Pipeline.isDelivery_tidyChunks`: so it is for a component, and for
  a design in chunks.
* `Pipeline.result_tidyEach_iff`: what it takes that all chunks are tidied. -/

namespace MarkupTidy

/-! ### Deliveries -/

/-- Nothing is written, or all that is written is delivered at the end, and the result tells whether
that has succeeded. -/
def FileOutcome.IsDelivery {α : Type} (tree : FileTree) (o : FileOutcome α) : Prop :=
  o.tree = tree ∨ ∃ folder files a, o.tree = (tree.deliver folder files).1 ∧
    o.result = FileFault.unless (tree.deliver folder files).2 a

namespace FileOutcome.IsDelivery

variable {α : Type} {tree : FileTree} {o : FileOutcome α} (h : o.IsDelivery tree)
include h

/-- A run that fails has written nothing. -/
theorem tree_eq_of_run {fault : RunFault} (hresult : o.result = .error (.run fault)) :
    o.tree = tree := by
  obtain htree | ⟨folder, files, a, -, hunless⟩ := h
  · exact htree
  · rw [hresult] at hunless
    unfold FileFault.unless at hunless
    split at hunless <;> simp at hunless

/-- Where a file is found to be no text, nothing has been written. -/
theorem tree_eq_of_notText (hresult : o.result = .error (.access .notText)) : o.tree = tree := by
  obtain htree | ⟨folder, files, a, -, hunless⟩ := h
  · exact htree
  · rw [hresult] at hunless
    unfold FileFault.unless at hunless
    split at hunless
    · rename_i e he
      obtain rfl : AccessError.notText = e := by simpa using hunless
      exact absurd he (FileTree.deliver_ne_notText tree folder files)
    · simp at hunless

end FileOutcome.IsDelivery

namespace Pipeline

variable {p : Pipeline} {tree : FileTree} {design : VariableTable}

theorem isDelivery_tidyFile (p : Pipeline) (tree : FileTree) (design : VariableTable)
    (input output : Path) : (p.tidyFile tree design input output).IsDelivery tree := by
  unfold tidyFile
  split
  · exact .inl rfl
  · dsimp only
    split
    · exact .inl rfl
    · exact .inl rfl
    · exact .inr ⟨_, _, _, rfl, rfl⟩

/-! ### Chunks -/

section
variable {folder : Path}

/-- A chunk is tidied if its file is a text that a run succeeds on. -/
theorem result_tidyChunk_iff {source : Path} {chunk : TidyChunk} :
    (p.tidyChunk tree design folder source).result = .ok chunk ↔
      ∃ text component, tree.readText source = .ok text ∧
        (p.run (.new design (some ⟨tree, source.parent⟩)) text source.toString).result
          = .ok component ∧
        chunk = ⟨Chunk.componentOf source, source,
          folder.child (Chunk.componentOf source ++ ".tsx"), component⟩ := by
  unfold tidyChunk
  cases tree.readText source with
  | error e => simp [FileOutcome.withoutAccess]
  | ok text =>
    dsimp only
    cases hrun : (p.run (.new design (some ⟨tree, source.parent⟩)) text source.toString).result with
    | error fault => simp [hrun]
    | ok component => simp [hrun, Chunk.componentOf, eq_comm]

theorem result_tidyChunk_of_fault {source : Path} {text : String} {fault : RunFault}
    (hread : tree.readText source = .ok text)
    (hrun : (p.run (.new design (some ⟨tree, source.parent⟩)) text source.toString).result
      = .error fault) : (p.tidyChunk tree design folder source).result = .error (.run fault) := by
  unfold tidyChunk
  rw [hread]
  dsimp only
  rw [hrun]

theorem tidyEach_cons_of_ok {source : Path} {rest : List Path} {chunk : TidyChunk}
    (h : (p.tidyChunk tree design folder source).result = .ok chunk) :
    (p.tidyEach tree design folder (source :: rest)).result
      = (p.tidyEach tree design folder rest).result.map (chunk :: ·) := by
  rw [tidyEach]
  dsimp only
  rw [h]

theorem tidyEach_cons_of_error {source : Path} {rest : List Path} {fault : FileFault}
    (h : (p.tidyChunk tree design folder source).result = .error fault) :
    (p.tidyEach tree design folder (source :: rest)).result = .error fault := by
  rw [tidyEach]
  dsimp only
  rw [h]

/-- All chunks are tidied if each of them is. -/
theorem result_tidyEach_iff {sources : List Path} {chunks : List TidyChunk} :
    (p.tidyEach tree design folder sources).result = .ok chunks ↔
      List.Forall₂ (fun source chunk => (p.tidyChunk tree design folder source).result = .ok chunk)
        sources chunks := by
  induction sources generalizing chunks with
  | nil => simp [tidyEach, eq_comm]
  | cons source rest ih =>
    cases h : (p.tidyChunk tree design folder source).result with
    | error fault =>
      rw [tidyEach_cons_of_error h]
      constructor
      · intro heq
        exact absurd heq (by simp)
      · rintro (_ | ⟨hchunk, -⟩)
        exact absurd (h.symm.trans hchunk) (by simp)
    | ok chunk =>
      rw [tidyEach_cons_of_ok h]
      constructor
      · intro heq
        cases hrest : (p.tidyEach tree design folder rest).result with
        | error fault =>
          rw [hrest] at heq
          exact absurd heq (by simp [Except.map])
        | ok more =>
          rw [hrest] at heq
          obtain rfl := Except.ok.inj heq
          exact .cons h (ih.1 hrest)
      · rintro (_ | ⟨hchunk, hrest⟩)
        obtain rfl := Except.ok.inj (h.symm.trans hchunk)
        rw [ih.2 hrest]
        rfl

end

theorem result_tidyChunks_of_error {input output : Path} {sources : List Path} {fault : FileFault}
    (hfind : Chunk.find tree input = .ok sources)
    (h : (p.tidyEach tree design (output.parent.child Chunk.outputFolder) sources).result
      = .error fault) : (p.tidyChunks tree design input output).result = .error fault := by
  unfold tidyChunks
  rw [hfind]
  dsimp only
  rw [h]

theorem isDelivery_tidyChunks (p : Pipeline) (tree : FileTree) (design : VariableTable)
    (input output : Path) : (p.tidyChunks tree design input output).IsDelivery tree := by
  unfold tidyChunks
  split
  · exact .inl rfl
  · dsimp only
    split
    · exact .inl rfl
    · split
      · exact .inl rfl
      · exact .inr ⟨_, _, _, rfl, rfl⟩

end Pipeline

end MarkupTidy
