import MarkupTidy.Command.Line
import MarkupTidy.Proofs.Chunk.Delivery
import MarkupTidy.Proofs.Chunk.Name
import MarkupTidy.Proofs.Run.Completion
import MarkupTidy.Proofs.Run.Repetition

/-! # Errors that end a command

The settings, the variables and the plan are there before anything is read that is to be tidied, and
everything is tidied before anything is written.  So an error in any of this leaves the files alone.

* `Command.fatalError?`: the error in which a command line for `process` ends.
* `Command.ProcessRequest.isDelivery_tidy`: a request writes only when all is tidied.
* `Command.run_of_fatalError`: after such an error no file has changed, and the status is 1. -/

namespace MarkupTidy.Command

/-- An error that ends the tidying of files before anything is written. -/
inductive FatalError where
  /-- The settings, the variables or the plan are refused. -/
  | setup (fault : SetupFault)
  /-- A component or a chunk cannot be read as markup, or a pass has failed on it. -/
  | run (fault : RunFault)
  /-- The component, a chunk or the element around the chunks stands in a file that is no text. -/
  | notText

/-- The error in which a request ends. -/
def ProcessRequest.fatalError? (r : ProcessRequest) (tree : FileTree) : Option FatalError :=
  match r.prepare tree with
  | .error fault => some (.setup fault)
  | .ok (design, p) =>
    match (r.tidy tree design p).result with
    | .error (.run fault) => some (.run fault)
    | .error (.access .notText) => some .notText
    | _ => none

/-- The request that a command line makes, if it makes one that can be met. -/
def requestOf? (tree : FileTree) (arguments : List String) : Option ProcessRequest :=
  match readArguments ProcessWish.specs true arguments with
  | .error _ => none
  | .ok ⟨wishes, operands⟩ =>
    if wishes.any fun | .help => true | _ => false then none
    else (readRequest tree wishes operands).toOption

/-- The error in which a command line for `process` ends. -/
def fatalError? (tree : FileTree) (arguments : List String) : Option FatalError :=
  (requestOf? tree arguments).bind (·.fatalError? tree)

/-! ### Requests -/

namespace ProcessRequest

variable {r : ProcessRequest} {tree : FileTree}

theorem isDelivery_map {α β : Type} {f : α → β} {o : FileOutcome α} (h : o.IsDelivery tree) :
    (FileOutcome.map f o).IsDelivery tree := by
  obtain htree | ⟨folder, files, a, htree, hresult⟩ := h
  · exact .inl htree
  · refine .inr ⟨folder, files, f a, htree, ?_⟩
    rw [FileOutcome.map, hresult]
    cases (tree.deliver folder files).2 <;> rfl

/-- A request writes only when all is tidied. -/
theorem isDelivery_tidy (r : ProcessRequest) (tree : FileTree) (design : VariableTable)
    (p : Pipeline) : (r.tidy tree design p).IsDelivery tree := by
  unfold tidy
  dsimp only
  split
  · exact .inl rfl
  · exact isDelivery_map (p.isDelivery_tidyFile ..)
  · exact isDelivery_map (p.isDelivery_tidyChunks ..)

theorem outcome_setupFault (tree : FileTree) (fault : SetupFault) :
    (fault.outcome tree).tree = tree ∧ (fault.outcome tree).status = 1 := by
  unfold SetupFault.outcome
  split <;> exact ⟨rfl, rfl⟩

theorem outcome_run_of_error {design : VariableTable} {p : Pipeline} {fault : FileFault}
    (h : (r.tidy tree design p).result = .error fault) :
    (r.run tree design p).tree = (r.tidy tree design p).tree ∧
      (r.run tree design p).status = 1 := by
  unfold run
  dsimp only
  rw [h]
  cases fault with
  | access e => exact ⟨rfl, rfl⟩
  | run fault => cases fault <;> exact ⟨rfl, rfl⟩

end ProcessRequest

/-! ### Command lines -/

theorem run_process (tree : FileTree) (arguments : List String) :
    run tree ("process" :: arguments) = process tree arguments := by
  have hoperands : readArguments Wish.specs false ("process" :: arguments)
      = .ok ⟨[], "process" :: arguments⟩ := by
    rw [readArguments, if_neg (by decide), if_neg (by decide)]
    rfl
  rw [run, hoperands]
  rfl

theorem process_of_requestOf? {tree : FileTree} {arguments : List String} {request : ProcessRequest}
    (h : requestOf? tree arguments = some request) :
    process tree arguments = match request.prepare tree with
      | .error fault => fault.outcome tree
      | .ok (design, p) => request.run tree design p := by
  unfold requestOf? at h
  unfold process
  cases harguments : readArguments ProcessWish.specs true arguments with
  | error fault =>
    rw [harguments] at h
    exact absurd h (by simp)
  | ok read =>
    obtain ⟨wishes, operands⟩ := read
    rw [harguments] at h
    dsimp only at h ⊢
    split at h
    · exact absurd h (by simp)
    · rename_i hhelp
      refine (if_neg hhelp).trans ?_
      cases hrequest : readRequest tree wishes operands with
      | error fault =>
        rw [hrequest] at h
        exact absurd h (by simp [Except.toOption])
      | ok request' =>
        rw [hrequest] at h
        obtain rfl : request' = request := Option.some.inj h
        rfl

/-- Where settings, variables or the plan are refused, a component or a chunk is malformed or fails a
pass, or a file to be tidied is no text, no file and no folder is new or has changed, however many
chunks have been tidied before, and the status is 1. -/
theorem run_of_fatalError {tree : FileTree} {arguments : List String} {error : FatalError}
    (h : fatalError? tree arguments = some error) :
    (run tree ("process" :: arguments)).tree = tree ∧
      (run tree ("process" :: arguments)).status = 1 := by
  obtain ⟨request, hrequest, herror⟩ := Option.bind_eq_some_iff.1 h
  rw [run_process, process_of_requestOf? hrequest]
  unfold ProcessRequest.fatalError? at herror
  cases hprepare : request.prepare tree with
  | error fault => exact ProcessRequest.outcome_setupFault tree fault
  | ok prepared =>
    obtain ⟨design, p⟩ := prepared
    rw [hprepare] at herror
    dsimp only at herror ⊢
    have hdelivery := request.isDelivery_tidy tree design p
    cases hresult : (request.tidy tree design p).result with
    | ok summary => rw [hresult] at herror; exact absurd herror (by simp)
    | error fault =>
      obtain ⟨htree, hstatus⟩ := ProcessRequest.outcome_run_of_error hresult
      refine ⟨htree.trans ?_, hstatus⟩
      cases fault with
      | run fault => exact hdelivery.tree_eq_of_run hresult
      | access e =>
        cases e with
        | notText => exact hdelivery.tree_eq_of_notText hresult
        | _ => rw [hresult] at herror; exact absurd herror (by simp)

/-! ### A chunk that is cut off -/

/-- A design in two chunks, of which the second cannot be read. -/
def cutOffDesign : FileTree where
  directory := ["work"]
  files := [(["work", "in.tsx"], .text "<div />"), (["work", "chunks", "a.tsx"], .text "<p />"),
    (["work", "chunks", "b.tsx"], .text "<p")]
  folders := []

/-- The request to tidy that design with the usual settings. -/
def cutOffRequest : ProcessRequest :=
  ⟨"in.tsx", "out.tsx", .ofWishes [], none, none, false⟩

theorem prepare_cutOffDesign :
    cutOffRequest.prepare cutOffDesign = .ok (.empty, .usual) := by
  have hdesign : VariableTable.load cutOffDesign cutOffRequest.variablesPath = .ok .empty := by
    with_unfolding_all rfl
  have hsettings : cutOffRequest.plan.settings cutOffDesign = .ok .usual := by with_unfolding_all rfl
  unfold ProcessRequest.prepare
  rw [hdesign, hsettings]
  dsimp only [Except.mapError, bind, Except.bind]
  rw [ofRegistry_builtin_usual]
  rfl

/-- The path of a chunk of that design. -/
def cutOffChunk (name : String) : Path :=
  ⟨.workingDirectory, ["chunks", name]⟩

theorem find_cutOffDesign : Chunk.find cutOffDesign (Path.ofString cutOffRequest.input)
    = .ok [cutOffChunk "a.tsx", cutOffChunk "b.tsx"] := by
  have hnames : (cutOffDesign.names ⟨.workingDirectory, ["chunks"]⟩).filter Chunk.isChunkName
      = ["a.tsx", "b.tsx"] := by decide +kernel
  have hinput : (Path.ofString cutOffRequest.input).parent.child Chunk.sourceFolder
      = ⟨.workingDirectory, ["chunks"]⟩ := by decide +kernel
  rw [Chunk.find_eq_of_isFolder (by decide +kernel) (by decide +kernel), hinput,
    Chunk.namesIn_eq_of_pairwise hnames (by decide +kernel)]
  rfl

/-- The first chunk is tidied, the second cannot be read. -/
theorem result_tidyEach_cutOffDesign (folder : Path) :
    (Pipeline.usual.tidyEach cutOffDesign .empty folder
      [cutOffChunk "a.tsx", cutOffChunk "b.tsx"]).result
        = .error (.run (.malformed (.malformed .unexpectedInTag ⟨1, 3⟩))) := by
  have hrun : ((Pipeline.usual.run (.new .empty (some ⟨cutOffDesign, (cutOffChunk "a.tsx").parent⟩))
      "<p />" (cutOffChunk "a.tsx").toString).result.toOption.map TidyComponent.code)
        = some "<p />" := by decide +kernel
  obtain ⟨component, hcomponent, -⟩ := Pipeline.exists_of_code_eq hrun
  have hfirst : cutOffDesign.readText (cutOffChunk "a.tsx") = .ok "<p />" := by decide +kernel
  have hsecond : cutOffDesign.readText (cutOffChunk "b.tsx") = .ok "<p" := by decide +kernel
  have hcutOff : Document.read "<p" = .error (.malformed .unexpectedInTag ⟨1, 3⟩) := by
    with_unfolding_all rfl
  rw [Pipeline.tidyEach_cons_of_ok
    (Pipeline.result_tidyChunk_iff.2 ⟨"<p />", component, hfirst, hcomponent, rfl⟩),
    Pipeline.tidyEach_cons_of_error (Pipeline.result_tidyChunk_of_fault hsecond
      (by rw [Pipeline.run_of_error hcutOff]))]
  rfl

theorem result_tidy_cutOffDesign : (cutOffRequest.tidy cutOffDesign .empty .usual).result
    = .error (.run (.malformed (.malformed .unexpectedInTag ⟨1, 3⟩))) := by
  have hchunks := Pipeline.result_tidyChunks_of_error find_cutOffDesign
    (result_tidyEach_cutOffDesign ((Path.ofString cutOffRequest.output).parent.child
      Chunk.outputFolder))
  unfold ProcessRequest.tidy
  dsimp only
  rw [if_neg (by decide), find_cutOffDesign]
  dsimp only
  rw [FileOutcome.map, hchunks]
  rfl

theorem cutOffDesign_unchanged :
    fatalError? cutOffDesign ["in.tsx", "out.tsx"]
        = some (.run (.malformed (.malformed .unexpectedInTag ⟨1, 3⟩))) ∧
      (run cutOffDesign ["process", "in.tsx", "out.tsx"]).tree = cutOffDesign ∧
      (run cutOffDesign ["process", "in.tsx", "out.tsx"]).status = 1 := by
  have hrequest : requestOf? cutOffDesign ["in.tsx", "out.tsx"] = some cutOffRequest := by
    with_unfolding_all rfl
  have herror : fatalError? cutOffDesign ["in.tsx", "out.tsx"]
      = some (.run (.malformed (.malformed .unexpectedInTag ⟨1, 3⟩))) := by
    rw [fatalError?, hrequest, Option.bind_some, ProcessRequest.fatalError?, prepare_cutOffDesign]
    dsimp only
    rw [result_tidy_cutOffDesign]
  exact ⟨herror, run_of_fatalError herror⟩

end MarkupTidy.Command
