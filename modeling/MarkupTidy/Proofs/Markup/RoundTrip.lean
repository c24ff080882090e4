import MarkupTidy.Proofs.Markup.Invariant
import MarkupTidy.Proofs.Markup.Necessity

/-! # Printing and reading a module

A document that was read and holds no inline style comes back from its printed text exactly if the
printed text is legible.  It need not be: an expression that was read with a quote left open is
ended elsewhere once the printer has put a whole tag on one line.

* `Document.Rereads`: printed and read, the document comes back but for texts that display
  nothing, and is printed alike.
* `Document.rereads_iff_legible`: the exact condition.
* `openQuote`: a source whose printed text cannot be read. -/

namespace MarkupTidy

open MarkupTidy.Markup MarkupTidy.Text

open Passage (join)

/-- The segment holds no inline style. -/
def Segment.HoldsNoStyle : Segment → Prop
  | .code _ => True
  | .markup root => ∀ x ∈ root.preorder, x.HoldsNoStyle

/-- The document holds no inline style. -/
def Document.HoldsNoStyle (d : Document) : Prop :=
  ∀ x ∈ d.elements, x.HoldsNoStyle

/-- The printed text of the document is read; what is read is the document but for texts that
display nothing, and is printed alike. -/
def Document.Rereads (d : Document) : Prop :=
  ∃ d', Document.read (String.ofList d.print) = .ok d' ∧ d'.dropBlank = d.dropBlank ∧
    d'.print = d.print

/-! ### Code -/

/-- Code that opens no markup opens none in front of an element or the end. -/
theorem opensMarkup_append {cs rest : List Char} (hne : cs ≠ [])
    (hopen : opensMarkup none cs = false) (hrest : ∀ c, rest.head? = some c → c = '<') :
    opensMarkup none (cs ++ rest) = false := by
  cases cs with
  | nil => exact absurd rfl hne
  | cons c cs =>
    cases cs with
    | cons d cs =>
      unfold opensMarkup at hopen ⊢
      split
      · rename_i heq
        simp only [List.cons_append, List.cons.injEq] at heq
        obtain ⟨rfl, rfl, _⟩ := heq
        exact hopen
      · rfl
    | nil =>
      cases rest with
      | nil => exact hopen
      | cons d rest =>
        rw [hrest d rfl]
        unfold opensMarkup
        split
        · rename_i heq
          simp only [List.cons_append, List.nil_append, List.cons.injEq] at heq
          rw [← heq.2.1]
          rfl
        · rfl

/-- Behind code, printed segments go on with an element or are at their end. -/
theorem Document.head?_printFrom (before : List Char) {segments : List Segment}
    (h : segments.head?.any Segment.isCode = false) :
    ∀ c, (printFrom before segments).head? = some c → c = '<' := by
  intro c hc
  cases segments with
  | nil => simp [printFrom] at hc
  | cons s rest =>
    cases s with
    | code source => simp [Segment.isCode] at h
    | markup root =>
      obtain ⟨tail, htail⟩ := root.exists_print (trailingIndent before)
      rw [printFrom, htail, List.cons_append, List.head?_cons, Option.some.injEq] at hc
      exact hc.symm

/-- Code that is found was legible. -/
theorem Progress.legible_code_of_expects {p : Progress} {source : String} {rest : List Char}
    {ms : List Mark} (hframes : p.frames = []) (hne : source.toList ≠ [])
    (hopen : opensMarkup none (source.toList ++ rest) = false)
    (h : p.Expects (source.toList ++ rest) (.code source :: ms)) :
    (Passage.code source.toList).Legible rest := by
  obtain ⟨closed, scan, hscan, hfound⟩ := h
  have hstep := Progress.step_code (p := { p with closed }) hframes hopen
  have hne' : source.toList ++ rest ≠ [] := fun hnil => hne (List.append_eq_nil_iff.1 hnil).1
  rw [Scan.readFrom_of_step hne' hstep] at hscan
  have hprefix := Scan.marks_prefix hscan
  have hmarks : (Progress.mk p.frames
      (.code (String.ofList (readCode none (source.toList ++ rest)).1) :: p.segments) closed).marks =
      p.marks ++ [.code (String.ofList (readCode none (source.toList ++ rest)).1)] := by
    simp [Progress.marks, hframes, Segment.marks]
  rw [hmarks, hfound] at hprefix
  have hmark := (List.cons_prefix_cons.1 ((List.prefix_append_right_inj _).1 hprefix)).1
  rw [Mark.code.injEq] at hmark
  have hcode := congrArg String.toList hmark
  rw [String.toList_ofList] at hcode
  have happ := readCode_append none (source.toList ++ rest)
  rw [hcode, List.append_cancel_left_eq] at happ
  exact Prod.ext hcode happ

/-! ### Documents -/

namespace Document

theorem isPrintable_of_areWritten {root : Element} (hw : ∀ x ∈ root.preorder, x.IsWritten)
    (hplain : ∀ x ∈ root.preorder, x.HoldsNoStyle) : root.IsPrintable :=
  fun x hx => ⟨hw x hx, hplain x hx⟩

/-- Legible segments are read back with their layout. -/
theorem reads_printFrom {segments : List Segment} (hw : Segment.AreWritten segments)
    (hplain : ∀ s ∈ segments, s.HoldsNoStyle) {before : List Char} {p : Progress}
    (hframes : p.frames = []) (h : Legible (passagesFrom before segments) []) :
    p.Reads (printFrom before segments)
      { p with segments := (laidOutFrom before segments).reverse ++ p.segments } [] := by
  induction segments generalizing before p with
  | nil => exact Progress.Reads.refl p []
  | cons s rest ih =>
    obtain ⟨hs, hapart, hrest⟩ := hw
    obtain ⟨hplains, hplainrest⟩ := List.forall_mem_cons.1 hplain
    cases s with
    | code source =>
      rw [passagesFrom, legible_cons, join_passagesFrom, List.append_nil] at h
      have hne : source.toList ≠ [] := fun hnil => hs.1 (String.toList_eq_nil_iff.1 hnil)
      have hopen := opensMarkup_append hne hs.2 (head?_printFrom source.toList (hapart rfl))
      have hread := Progress.reads_code hframes hne hopen h.1
      rw [printFrom, laidOutFrom, List.reverse_cons, List.append_assoc]
      exact hread.trans (ih hrest hplainrest (p := { p with segments := _ }) hframes h.2)
    | markup root =>
      rw [passagesFrom, legible_append, join_passagesFrom, List.append_nil] at h
      have hread := Element.reads root (p := p) (fun _ => hs.2) (isBlank_of_mem_trailingIndent before)
        (isPrintable_of_areWritten hs.1 hplains) h.1
      rw [Progress.attach_of_root hframes] at hread
      rw [printFrom, laidOutFrom, List.reverse_cons, List.append_assoc]
      exact hread.trans (ih hrest hplainrest (p := { p with segments := _ }) hframes h.2)

/-- Segments that are found where they were printed were legible. -/
theorem legible_of_expects {segments : List Segment} (hw : Segment.AreWritten segments)
    (hplain : ∀ s ∈ segments, s.HoldsNoStyle) {before : List Char} {p : Progress}
    (hframes : p.frames = [])
    (h : p.Expects (printFrom before segments) (segments.flatMap Segment.marks)) :
    Legible (passagesFrom before segments) [] := by
  induction segments generalizing before p with
  | nil => trivial
  | cons s rest ih =>
    obtain ⟨hs, hapart, hrest⟩ := hw
    obtain ⟨hplains, hplainrest⟩ := List.forall_mem_cons.1 hplain
    rw [List.flatMap_cons] at h
    cases s with
    | code source =>
      have hne : source.toList ≠ [] := fun hnil => hs.1 (String.toList_eq_nil_iff.1 hnil)
      have hopen := opensMarkup_append hne hs.2 (head?_printFrom source.toList (hapart rfl))
      rw [printFrom] at h
      have hlegible := Progress.legible_code_of_expects hframes hne hopen h
      have hread := Progress.reads_code hframes hne hopen hlegible
      have hexpects := h.of_reads hread (by simp [Progress.marks, hframes, Segment.marks])
      rw [passagesFrom, legible_cons, join_passagesFrom, List.append_nil]
      exact ⟨hlegible, ih hrest hplainrest (p := { p with segments := .code source :: p.segments })
        hframes hexpects⟩
    | markup root =>
      have hindent := isBlank_of_mem_trailingIndent before
      have hprintable := isPrintable_of_areWritten hs.1 hplains
      rw [printFrom] at h
      have hlegible := Element.legible_of_expects root (fun _ => hs.2) hindent hprintable h
      have hread := Element.reads root (p := p) (fun _ => hs.2) hindent hprintable hlegible
      have hmarks := Progress.marks_attach p (root.laidOut (trailingIndent before))
      rw [Element.marks_laidOut hlegible] at hmarks
      have hexpects := h.of_reads hread hmarks
      rw [Progress.attach_of_root hframes] at hexpects
      rw [passagesFrom, legible_append, join_passagesFrom, List.append_nil]
      exact ⟨hlegible, ih hrest hplainrest
        (p := ⟨p.frames, .markup (root.laidOut (trailingIndent before)) :: p.segments, p.closed⟩)
        hframes hexpects⟩

theorem holdsNoStyle_of_mem {d : Document} (h : d.HoldsNoStyle) :
    ∀ s ∈ d.segments, s.HoldsNoStyle := by
  intro s hs
  cases s with
  | code source => trivial
  | markup root =>
    intro x hx
    refine h x (List.mem_flatMap.2 ⟨root, ?_, hx⟩)
    exact List.mem_filterMap.2 ⟨.markup root, hs, rfl⟩

/-- A document that was read and holds no inline style comes back from its printed text exactly
if the printed text is legible: every piece of code and every expression ends where it ended, and
every line break that was put in displays nothing. -/
theorem rereads_iff_legible {source : String} {d : Document} (h : Document.read source = .ok d)
    (hplain : d.HoldsNoStyle) : d.Rereads ↔ Legible d.passages [] := by
  have hw := areWritten_of_read h
  have hplain' := holdsNoStyle_of_mem hplain
  constructor
  · rintro ⟨d', hread, hdrop, _⟩
    obtain ⟨scan, hscan, _, rfl⟩ := exists_of_read_ok hread
    rw [String.toList_ofList] at hscan
    refine legible_of_expects hw hplain' (p := .start) rfl ⟨[], scan, hscan, ?_⟩
    exact marks_eq_of_dropBlank hdrop
  · intro hlegible
    have hreads := reads_printFrom hw hplain' (p := .start) rfl hlegible
    have hread := read_of_reads hreads rfl
    rw [Progress.start, List.append_nil, List.reverse_reverse] at hread
    exact ⟨d.laidOut, hread, dropBlank_laidOut hlegible, print_laidOut d⟩

end Document

/-- The document of a piece of code and an element around a text. -/
def plainModule : Document :=
  ⟨[.code "f = ", .markup ⟨"p", [⟨"id", .text "x"⟩], [.text "a b"]⟩, .code ";\n"]⟩

theorem plainModule_rereads_iff_legible :
    Document.read "f = <p id=\"x\">a b</p>;\n" = .ok plainModule ∧ plainModule.HoldsNoStyle ∧
      (plainModule.Rereads ↔ Legible plainModule.passages []) := by
  have hread : Document.read "f = <p id=\"x\">a b</p>;\n" = .ok plainModule := by
    with_unfolding_all rfl
  have hplain : plainModule.HoldsNoStyle := by
    intro x hx a ha s
    rw [List.mem_singleton.1 hx] at ha
    rw [List.mem_singleton.1 ha]
    simp
  exact ⟨hread, hplain, Document.rereads_iff_legible hread hplain⟩

/-- A tag on two lines.  Each of its attributes holds a quote that is left open on its line; on one
line the second quote closes the first. -/
def openQuote : String := "<p a=\x7b/'/\x7d\n b=\"'\x7b\" />"

/-- What the tag is read as. -/
def openQuoteModule : Document :=
  ⟨[.markup ⟨"p", [⟨"a", .expression "/'/"⟩, ⟨"b", .text "'\x7b"⟩], []⟩]⟩

theorem openQuote_not_rereads : Document.read openQuote = .ok openQuoteModule ∧
    openQuoteModule.HoldsNoStyle ∧
    openQuoteModule.print = "<p a=\x7b/'/\x7d b=\"'\x7b\" />".toList ∧
    Document.read (String.ofList openQuoteModule.print) =
      .error (.malformed .unterminatedExpression ⟨1, 6⟩) ∧ ¬openQuoteModule.Rereads := by
  have hread : Document.read openQuote = .ok openQuoteModule := by
    with_unfolding_all rfl
  have hplain : openQuoteModule.HoldsNoStyle := by
    intro x hx a ha s
    rw [List.mem_singleton.1 hx] at ha
    simp only [List.mem_cons, List.not_mem_nil, or_false] at ha
    obtain rfl | rfl := ha <;> simp
  have hprint : openQuoteModule.print = "<p a=\x7b/'/\x7d b=\"'\x7b\" />".toList := by
    with_unfolding_all rfl
  have hagain : Document.read (String.ofList openQuoteModule.print) =
      .error (.malformed .unterminatedExpression ⟨1, 6⟩) := by
    with_unfolding_all rfl
  refine ⟨hread, hplain, hprint, hagain, ?_⟩
  rintro ⟨d', hread', _⟩
  rw [hagain] at hread'
  simp at hread'

end MarkupTidy
