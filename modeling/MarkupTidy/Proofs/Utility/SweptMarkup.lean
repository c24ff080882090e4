import MarkupTidy.Proofs.Markup.Invariant
import MarkupTidy.Proofs.Markup.Readable
import MarkupTidy.Proofs.Utility.StyleSource

/-! # Printed markup that is swept

The sweep goes over printed source as over any text.  Markup whose values are safe is printed as
source that is accepted, and a sweep makes of it source that is accepted.

* `Attribute.IsSafe`, `Node.IsSafe`, `IsSafeCode`: what is asked of the parts of a module.
* `Element.IsSound`, `Segment.AreSound`: safe parts that can be written.
* `Document.exists_read_of_areSound`: a sound module is accepted when it is printed, and when it is
  swept after that. -/

namespace MarkupTidy

open MarkupTidy.Markup MarkupTidy.Text

/-! ### What is safe -/

section
variable (design : VariableTable)

/-- The value of the attribute stays a value when it is printed and swept, and so does a style
expression that is layered over a typeface.  A text with double quotes is put in single ones, which
class lists cannot be. -/
def Attribute.IsSafe (a : Attribute) : Prop :=
  match a.value with
  | .flag => True
  | .text value => HoldsNoClasses value.toList ∧
      (classAttribute.toList <:+ a.name.toList → '"' ∉ value.toList)
  | .expression source => IsSweepable design source.toList ∧
      (a.name = "style" → IsSweepable design (trim source.toList))
  | .style s => a.name = "style" ∧ s.IsSafe design

/-- The text or the expression stays one when it is printed and swept. -/
def Node.IsSafe : Node → Prop
  | .text value => HoldsNoClasses value.toList
  | .expression source => IsSweepable design source.toList
  | .element _ => True

/-- The values and the children of the element are safe. -/
structure Element.IsSafe (e : Element) : Prop where
  attributes : ∀ a ∈ e.attributes, a.IsSafe design
  children : ∀ n ∈ e.children, n.IsSafe design

/-- The code is read as code whatever markup follows it, also after a sweep. -/
def IsSafeCode (cs : List Char) : Prop :=
  SweepsWithin design IsCodeText cs (sweptText design cs)

/-- All parts of the module are safe. -/
structure Document.IsSafe (d : Document) : Prop where
  code : ∀ source ∈ d.code, IsSafeCode design source.toList
  elements : ∀ e ∈ d.elements, e.IsSafe design

/-! ### What is sound -/

/-- The attribute has a name, unless it is a spread, and quotes can be put around a text. -/
def Attribute.IsNamed (a : Attribute) : Prop :=
  match a.value with
  | .flag => IsName a.name
  | .text value => IsName a.name ∧ ('"' ∉ value.toList ∨ '\'' ∉ value.toList)
  | .expression _ => a.name = "" ∨ IsName a.name
  | .style _ => True

/-- The attribute can be written and is safe. -/
structure Attribute.IsSound (a : Attribute) : Prop where
  named : a.IsNamed
  safe : a.IsSafe design

/-- The element can be written and is safe. -/
structure Element.IsSound (e : Element) : Prop where
  tag : e.tag = "" ∨ IsName e.tag
  attributes : ∀ a ∈ e.attributes, a.IsSound design
  texts : Node.TextsWritten e.children
  children : ∀ n ∈ e.children, n.IsSafe design

/-- The segment can be written and is safe. -/
def Segment.IsSound : Segment → Prop
  | .code source => IsSafeCode design source.toList
  | .markup root => (∀ x ∈ root.preorder, x.IsSound design) ∧ OpensRoot root.tag

/-- Segments that can be written and are safe; no code is next to other code. -/
def Segment.AreSound : List Segment → Prop
  | [] => True
  | s :: rest =>
    s.IsSound design ∧ (s.isCode = true → rest.head?.any Segment.isCode = false) ∧ AreSound rest

end

section
variable {design : VariableTable}

/-- Code in which no class attribute begins is left by a sweep. -/
theorem IsSafeCode.of_holdsNoClasses {cs : List Char} (h : HoldsNoClasses cs)
    (hcode : IsCodeText cs) : IsSafeCode design cs := by
  have hsweeps := sweeps_of_holdsNoClasses design h
  unfold IsSafeCode
  rw [← hsweeps.eq_sweptText]
  exact ⟨hsweeps, hcode, hcode⟩

/-! ### Attributes -/

theorem not_mem_of_isName {name : String} (h : IsName name) : '=' ∉ name.toList := by
  obtain ⟨c, tail, htoList, hstart, htail⟩ := exists_of_isName h
  rw [htoList, List.mem_cons, not_or]
  exact ⟨Ne.symm (ne_of_isNameStart hstart (by decide)),
    fun hmem => absurd (htail _ hmem) (by decide)⟩

/-- A name with an expression. -/
theorem sweepsWithin_expression {name : String} {source : List Char} (hname : IsName name)
    (hsource : IsSweepable design source) : ∃ x', SweepsWithin design IsAttributeText
      (name.toList ++ '=' :: braced source) x' := by
  refine ⟨name.toList ++ '=' :: braced (sweptText design source), fun following hstop => ?_,
    isAttributeText_expression hname hsource.closed,
    isAttributeText_expression hname hsource.sweptClosed⟩
  have hhead : ∀ c, (braced source ++ following).head? = some c → c ≠ '"' ∧ c ≠ '\'' := by
    rintro c hc
    obtain rfl : '\x7b' = c := Option.some.inj hc
    decide
  rw [List.append_assoc, List.cons_append, sweptText_name design (not_mem_of_isName hname) hhead,
    hsource.apart.braced following]
  simp

/-- A name with a text. -/
theorem sweepsWithin_text {name value : String} (hname : IsName name)
    (hquotes : '"' ∉ value.toList ∨ '\'' ∉ value.toList) (hvalue : HoldsNoClasses value.toList)
    (hclasses : classAttribute.toList <:+ name.toList → '"' ∉ value.toList) :
    ∃ x', SweepsWithin design IsAttributeText (name.toList ++ '=' :: quotedValue value.toList) x' := by
  have htext := isAttributeText_text hname hquotes
  have hdouble : ∀ {cs : List Char}, '"' ∉ cs → quotedValue cs = '"' :: (cs ++ ['"']) := by
    intro cs h
    simp [quotedValue, h]
  by_cases hswept : classAttribute.toList <:+ name.toList ∧ '\n' ∉ value.toList
  · -- the value is a class list on one line: its placeholders are resolved
    obtain ⟨hends, hline⟩ := hswept
    have hquote := hclasses hends
    have hresolved : '"' ∉ resolvedValue design value.toList := fun hc =>
      (ClassPiece.mem_resolve design hline hc).elim hquote fun h => h (by decide)
    refine ⟨name.toList ++ '=' :: quotedValue (resolvedValue design value.toList),
      fun following _ => ?_, htext, isAttributeText_text hname (Or.inl hresolved)⟩
    have hsound : (ClassPiece.classes '"' value.toList).IsSound := ⟨Or.inl rfl, hquote, hline⟩
    rw [hdouble hquote, hdouble hresolved]
    simpa using sweptText_classes design (not_mem_of_isName hname) hends hsound
  · obtain ⟨q, hq, hquoted, hline⟩ : ∃ q, (q = '"' ∨ q = '\'') ∧
        quotedValue value.toList = q :: (value.toList ++ [q]) ∧
        (classAttribute.toList <:+ name.toList → q ∉ value.toList ∧ '\n' ∈ value.toList) := by
      by_cases hquote : '"' ∈ value.toList
      · exact ⟨'\'', Or.inr rfl, by simp [quotedValue, hquote],
          fun hends => absurd hquote (hclasses hends)⟩
      · exact ⟨'"', Or.inl rfl, hdouble hquote, fun hends =>
          ⟨hquote, Decidable.byContradiction fun hline => hswept ⟨hends, hline⟩⟩⟩
    refine ⟨_, fun following _ => ?_, htext, htext⟩
    rw [hquoted]
    simpa using sweptText_text design (not_mem_of_isName hname) hq hvalue hline

/-- An attribute that is sound is read, before and after a sweep. -/
theorem Attribute.IsSound.sweepsWithin {a : Attribute} (h : a.IsSound design) :
    SweepsWithin design IsAttributeText a.print (sweptText design a.print) := by
  suffices ∃ x', SweepsWithin design IsAttributeText a.print x' by
    obtain ⟨x', hx'⟩ := this
    rwa [hx'.sweeps.eq_sweptText] at hx'
  obtain ⟨hnamed, hsafe⟩ := h
  obtain ⟨name, value⟩ := a
  cases value with
  | flag =>
    have hclasses : HoldsNoClasses name.toList :=
      holdsNoClasses_of_not_mem (c := '=') rfl (not_mem_of_isName hnamed)
    exact ⟨name.toList, sweeps_of_holdsNoClasses design hclasses, isAttributeText_flag hnamed,
      isAttributeText_flag hnamed⟩
  | text value => exact sweepsWithin_text hnamed.1 hnamed.2 hsafe.1 hsafe.2
  | expression source =>
    obtain ⟨hsource, -⟩ := hsafe
    simp only [Attribute.print]
    split
    · exact ⟨braced (sweptText design source.toList), hsource.apart.braced.sweeps,
        isAttributeText_spread hsource.closed, isAttributeText_spread hsource.sweptClosed⟩
    · rename_i hspread
      exact sweepsWithin_expression (hnamed.resolve_left hspread) hsource
  | style s =>
    obtain ⟨rfl, hs⟩ := hsafe
    have hname : IsName "style" := by decide
    exact sweepsWithin_expression hname (Style.isSweepable_print hs)

/-! ### Tags -/

theorem stops_spaced (texts : List (List Char)) (selfClosing : Bool) (following : List Char) :
    Stops isOpeningChar (spaced texts ++ (tagEnd selfClosing ++ following)) := by
  cases texts with
  | nil => cases selfClosing <;> exact stops_cons rfl
  | cons text rest => exact stops_cons rfl

theorem sweepsApart_tagEnd (selfClosing : Bool) :
    SweepsApart design (tagEnd selfClosing) (tagEnd selfClosing) := by
  have hplain : ∀ {x}, '=' ∉ x → Sweeps design x x := fun h =>
    sweeps_of_holdsNoClasses design (holdsNoClasses_of_not_mem (c := '=') rfl h)
  cases selfClosing with
  | true => exact (hplain (x := [' ', '/']) (by decide)).concat (by decide)
  | false => exact (hplain (x := []) (by decide)).concat (by decide)

/-- Attributes that are swept apart from what follows them, up to the end of their tag. -/
theorem sweepsApart_spaced {texts : List (List Char)}
    (h : ∀ text ∈ texts, Sweeps design text (sweptText design text)) (selfClosing : Bool) :
    SweepsApart design (spaced texts ++ tagEnd selfClosing)
      (spaced (texts.map (sweptText design)) ++ tagEnd selfClosing) := by
  intro following
  rw [List.append_assoc, List.append_assoc]
  induction texts with
  | nil => exact sweepsApart_tagEnd selfClosing following
  | cons text rest ih =>
    obtain ⟨htext, hrest⟩ := List.forall_mem_cons.1 h
    rw [List.map_cons, spaced_cons, spaced_cons, List.cons_append, List.append_assoc,
      sweptText_cons design (by decide), htext _ (stops_spaced rest selfClosing following), ih hrest,
      List.cons_append, List.append_assoc]

theorem sweepsApart_tagText {tag : String} (htag : tag = "" ∨ IsName tag) {texts : List (List Char)}
    (h : ∀ text ∈ texts, Sweeps design text (sweptText design text)) (selfClosing : Bool) :
    SweepsApart design (tagText tag texts selfClosing)
      (tagText tag (texts.map (sweptText design)) selfClosing) := by
  obtain rfl | hname := htag
  · exact Sweeps.concat (x := ['<']) (sweeps_of_holdsNoClasses design (by decide)) (by decide)
  · intro following
    have hclasses : HoldsNoClasses ('<' :: tag.toList) :=
      (holdsNoClasses_of_not_mem (c := '=') rfl (not_mem_of_isName hname)).cons (by decide)
    have hne := ne_empty_of_isName hname
    have hfollowing := sweepsApart_spaced h selfClosing following
    rw [List.append_assoc, List.append_assoc] at hfollowing
    rw [tagText, tagText, if_neg hne, if_neg hne, ← List.cons_append, ← List.cons_append,
      List.append_assoc, List.append_assoc, List.append_assoc, List.append_assoc,
      sweeps_of_holdsNoClasses design hclasses _ (stops_spaced texts selfClosing following),
      hfollowing]

theorem sweepsApart_closeTag {tag : String} (htag : tag = "" ∨ IsName tag) :
    SweepsApart design (closeTag tag) (closeTag tag) := by
  obtain rfl | hname := htag
  · exact Sweeps.concat (x := ['<', '/']) (sweeps_of_holdsNoClasses design (by decide)) (by decide)
  · have hclasses : HoldsNoClasses ('<' :: '/' :: tag.toList) :=
      ((holdsNoClasses_of_not_mem (c := '=') rfl (not_mem_of_isName hname)).cons (by decide)).cons
        (by decide)
    rw [closeTag, if_neg (ne_empty_of_isName hname)]
    exact (sweeps_of_holdsNoClasses design hclasses).concat (by decide)

/-! ### Elements -/

/-- The text of an element is swept apart from all that follows, and is one before and after. -/
structure SweepsElement (design : VariableTable) (tag : String) (x x' : List Char) : Prop where
  sweeps : SweepsApart design x x'
  before : IsElementText tag x
  after : IsElementText tag x'

/-- What begins with no text cannot go on with a class attribute. -/
theorem stops_isOpeningChar {cs : List Char} (h : Stops Progress.isTextChar cs) :
    Stops isOpeningChar cs := by
  have hopening : ∀ c ∈ ClassPiece.opening, Progress.isTextChar c = true := by decide
  intro c hc
  refine Bool.eq_false_iff.2 fun hmem => ?_
  exact Bool.noConfusion ((h c hc).symm.trans (hopening c (List.contains_iff_mem.1 hmem)))

theorem stops_isTextChar_of_element {tag : String} {cs : List Char} (h : IsElementText tag cs)
    (following : List Char) : Stops Progress.isTextChar (cs ++ following) := by
  obtain ⟨tail, rfl⟩ := h.begins
  exact stops_cons (by decide)

/-- An opening tag that is sound, its texts before and after a sweep. -/
theorem Element.IsSound.texts_isAttributeText {e : Element} (h : e.IsSound design) :
    (∀ text ∈ e.attributes.map Attribute.print, Sweeps design text (sweptText design text)) ∧
      (∀ text ∈ e.attributes.map Attribute.print, IsAttributeText text) ∧
      ∀ text ∈ (e.attributes.map Attribute.print).map (sweptText design), IsAttributeText text := by
  refine ⟨List.forall_mem_map.2 fun a ha => (h.attributes a ha).sweepsWithin.sweeps,
    List.forall_mem_map.2 fun a ha => (h.attributes a ha).sweepsWithin.before, ?_⟩
  rw [List.map_map]
  exact List.forall_mem_map.2 fun a ha => (h.attributes a ha).sweepsWithin.after

/-- An element around children that are swept. -/
theorem Element.IsSound.sweepsElement {e : Element} (h : e.IsSound design) {body body' : List Char}
    (hbody : SweepsWithin design IsContent body body') : ∃ x', SweepsElement design e.tag
      (openTag e.tag e.attributes false ++ (body ++ closeTag e.tag)) x' := by
  obtain ⟨hsweeps, hbefore, hafter⟩ := h.texts_isAttributeText
  refine ⟨tagText e.tag ((e.attributes.map Attribute.print).map (sweptText design)) false ++
    (body' ++ closeTag e.tag), fun following => ?_, ?_, ?_⟩
  · have hstop : Stops isOpeningChar (closeTag e.tag ++ following) :=
      stops_isOpeningChar (stops_closeTag e.tag following)
    rw [openTag_eq, List.append_assoc, List.append_assoc, sweepsApart_tagText h.tag hsweeps,
      hbody.sweeps _ hstop, sweepsApart_closeTag h.tag, List.append_assoc, List.append_assoc]
  · rw [openTag_eq]
    exact isElementText_content h.tag hbefore hbody.before
  · exact isElementText_content h.tag hafter hbody.after

/-- A child that is an element, in front of children that are swept. -/
theorem SweepsElement.child {tag : String} {x x' y y' : List Char}
    (hx : SweepsElement design tag x x') (hy : SweepsWithin design IsContent y y') :
    SweepsWithin design IsContent (x ++ y) (x' ++ y') :=
  ⟨hx.sweeps.append hy.sweeps, .element hx.before hy.before, .element hx.after hy.after⟩

/-- A child that is an expression, in front of children that are swept. -/
theorem IsSweepable.child {source y y' : List Char} (hsource : IsSweepable design source)
    (hy : SweepsWithin design IsContent y y') :
    SweepsWithin design IsContent (MarkupTidy.braced source ++ y)
      (MarkupTidy.braced (sweptText design source) ++ y') :=
  ⟨hsource.apart.braced.append hy.sweeps, .expression hsource.closed hy.before,
    .expression hsource.sweptClosed hy.after⟩

/-- A text in front of children that are swept and begin with no text. -/
theorem sweepsWithin_textChild {value y y' : List Char} (hne : value ≠ [])
    (hall : ∀ c ∈ value, Progress.isTextChar c = true) (hvalue : HoldsNoClasses value)
    (hstop : Stops Progress.isTextChar y) (hstop' : Stops Progress.isTextChar y')
    (hy : SweepsWithin design IsContent y y') :
    SweepsWithin design IsContent (value ++ y) (value ++ y') :=
  ⟨(sweeps_of_holdsNoClasses design hvalue).append (stops_isOpeningChar hstop) hy.sweeps,
    .text hne hall hstop hy.before, .text hne hall hstop' hy.after⟩

/-- A line break in front of children that are swept and begin with no text. -/
theorem sweepsWithin_lineBreak {indent y y' : List Char} (hindent : ∀ c ∈ indent, isBlank c = true)
    (hstop : Stops Progress.isTextChar y) (hstop' : Stops Progress.isTextChar y')
    (hy : SweepsWithin design IsContent y y') :
    SweepsWithin design IsContent ('\n' :: indent ++ y) ('\n' :: indent ++ y') := by
  have hblank : ∀ c ∈ '\n' :: indent, isBlank c = true :=
    List.forall_mem_cons.2 ⟨by decide, hindent⟩
  exact sweepsWithin_textChild (List.cons_ne_nil _ _)
    (fun c hc => isTextChar_of_isBlank (hblank c hc))
    (holdsNoClasses_of_not_mem (c := '=') rfl fun hc => absurd (hblank _ hc) (by decide))
    hstop hstop' hy

theorem sweepsWithin_nil : SweepsWithin design IsContent [] [] :=
  ⟨sweeps_of_holdsNoClasses design (by decide), .nil, .nil⟩

mutual
/-- A sound element is printed as one, before and after a sweep. -/
theorem Element.exists_sweepsElement : (e : Element) → {indent : List Char} →
    (∀ c ∈ indent, isBlank c = true) → (∀ x ∈ e.preorder, x.IsSound design) →
    ∃ x', SweepsElement design e.tag (e.print indent) x'
  | ⟨tag, attributes, children⟩, indent, hindent, h => by
    obtain ⟨he, hchildren⟩ := List.forall_mem_cons.1 h
    obtain ⟨rfl, htag⟩ | htext | ⟨source, rfl⟩ | hlines := Element.layout_cases tag children
    · obtain ⟨hsweeps, hbefore, hafter⟩ := he.texts_isAttributeText
      have hname := he.tag.resolve_left htag
      rw [Element.print_closed htag, openTag_eq]
      exact ⟨_, sweepsApart_tagText he.tag hsweeps true, isElementText_closed hname hbefore,
        isElementText_closed hname hafter⟩
    · obtain ⟨body', hbody, -⟩ :=
        Node.exists_sweepsWithin_inline children hindent he.texts he.children hchildren
      rw [Element.print_inline htext]
      exact he.sweepsElement hbody
    · have hsource : IsSweepable design source.toList := he.children _ List.mem_cons_self
      have hbody := hsource.child sweepsWithin_nil
      rw [List.append_nil] at hbody
      rw [Element.print_single]
      exact he.sweepsElement hbody
    · have hend : SweepsWithin design IsContent ('\n' :: indent ++ []) ('\n' :: indent ++ []) :=
        sweepsWithin_lineBreak hindent stops_nil stops_nil sweepsWithin_nil
      rw [List.append_nil] at hend
      obtain ⟨body', hbody⟩ := Node.exists_sweepsWithin_lines children
        (forall_mem_indentStep rfl hindent) hlines.noText he.children hchildren hend
      have happ : Node.printLines children (indent ++ indentStep) ++ '\n' :: (indent ++ closeTag tag) =
          Node.printLines children (indent ++ indentStep) ++ '\n' :: indent ++ closeTag tag := by
        simp
      rw [Element.print_lines hlines, happ]
      exact he.sweepsElement hbody

/-- Sound children are printed as they were laid out, before and after a sweep. -/
theorem Node.exists_sweepsWithin_inline : (ns : List Node) → {indent : List Char} →
    (∀ c ∈ indent, isBlank c = true) → Node.TextsWritten ns → (∀ n ∈ ns, n.IsSafe design) →
    (∀ x ∈ Node.preorderAll ns, x.IsSound design) →
    ∃ x', SweepsWithin design IsContent (Node.printInline ns indent) x' ∧
      (ns.head?.any Node.isText = false → Stops Progress.isTextChar x')
  | [], _, _, _, _, _ => ⟨[], sweepsWithin_nil, fun _ => stops_nil⟩
  | .text value :: ns, indent, hindent, htexts, hsafe, h => by
    obtain ⟨hne, hall, hhead, htexts⟩ := htexts
    obtain ⟨hvalue, hsafe⟩ := List.forall_mem_cons.1 hsafe
    have hafter : ∀ c ∈ indentAfter value.toList indent, isBlank c = true :=
      isBlank_of_mem_indentAfter hindent
    obtain ⟨y', hy, hstop'⟩ := Node.exists_sweepsWithin_inline ns hafter htexts hsafe h
    have hstop := Node.stops_printInline hhead (indentAfter value.toList indent) stops_nil
    rw [List.append_nil] at hstop
    refine ⟨value.toList ++ y', ?_, fun htext => absurd htext (by simp [Node.isText])⟩
    exact sweepsWithin_textChild (fun hnil => hne (String.toList_eq_nil_iff.1 hnil)) hall hvalue hstop
      (hstop' hhead) hy
  | .expression source :: ns, indent, hindent, htexts, hsafe, h => by
    obtain ⟨hsource, hsafe⟩ := List.forall_mem_cons.1 hsafe
    obtain ⟨y', hy, -⟩ := Node.exists_sweepsWithin_inline ns hindent htexts hsafe h
    exact ⟨_, IsSweepable.child hsource hy, fun _ => stops_cons (by decide)⟩
  | .element e :: ns, indent, hindent, htexts, hsafe, h => by
    obtain ⟨he, hns⟩ := List.forall_mem_append.1 h
    obtain ⟨-, hsafe⟩ := List.forall_mem_cons.1 hsafe
    obtain ⟨y', hy, -⟩ := Node.exists_sweepsWithin_inline ns hindent htexts hsafe hns
    obtain ⟨x', hx⟩ := Element.exists_sweepsElement e hindent he
    exact ⟨x' ++ y', hx.child hy, fun _ => stops_isTextChar_of_element hx.after y'⟩

/-- Sound children are printed on a line each, before and after a sweep. -/
theorem Node.exists_sweepsWithin_lines : (ns : List Node) → {indent z z' : List Char} →
    (∀ c ∈ indent, isBlank c = true) → ns.any Node.isText = false → (∀ n ∈ ns, n.IsSafe design) →
    (∀ x ∈ Node.preorderAll ns, x.IsSound design) → SweepsWithin design IsContent z z' →
    ∃ x', SweepsWithin design IsContent (Node.printLines ns indent ++ z) x'
  | [], _, _, z', _, _, _, _, hz => ⟨z', hz⟩
  | .text value :: ns, _, _, _, _, htext, _, _, _ => by simp [Node.isText] at htext
  | .expression source :: ns, indent, z, z', hindent, htext, hsafe, h, hz => by
    obtain ⟨hsource, hsafe⟩ := List.forall_mem_cons.1 hsafe
    obtain ⟨y', hy⟩ := Node.exists_sweepsWithin_lines ns hindent
      (by simpa [Node.isText] using htext) hsafe h hz
    have happ : Node.printLines (.expression source :: ns) indent ++ z =
        '\n' :: indent ++ (braced source.toList ++ (Node.printLines ns indent ++ z)) := by
      simp [Node.printLines]
    rw [happ]
    exact ⟨_, sweepsWithin_lineBreak hindent (stops_cons (by decide)) (stops_cons (by decide))
      (IsSweepable.child hsource hy)⟩
  | .element e :: ns, indent, z, z', hindent, htext, hsafe, h, hz => by
    obtain ⟨he, hns⟩ := List.forall_mem_append.1 h
    obtain ⟨-, hsafe⟩ := List.forall_mem_cons.1 hsafe
    obtain ⟨y', hy⟩ := Node.exists_sweepsWithin_lines ns hindent
      (by simpa [Node.isText] using htext) hsafe hns hz
    obtain ⟨x', hx⟩ := Element.exists_sweepsElement e hindent he
    have happ : Node.printLines (.element e :: ns) indent ++ z =
        '\n' :: indent ++ (e.print indent ++ (Node.printLines ns indent ++ z)) := by
      simp [Node.printLines]
    rw [happ]
    exact ⟨_, sweepsWithin_lineBreak hindent (stops_isTextChar_of_element hx.before _)
      (stops_isTextChar_of_element hx.after _) (hx.child hy)⟩
end

/-! ### Modules -/

/-- Sound segments are printed as a module, before and after a sweep. -/
theorem Segment.AreSound.isModuleText {segments : List Segment}
    (h : Segment.AreSound design segments) (before : List Char) :
    (IsModuleText (Document.printFrom before segments) ∧
        IsModuleText (sweptText design (Document.printFrom before segments))) ∧
      (segments.head?.any Segment.isCode = false →
        EndsCode (Document.printFrom before segments) ∧
          EndsCode (sweptText design (Document.printFrom before segments))) := by
  induction segments generalizing before with
  | nil =>
    rw [Document.printFrom, sweptText_nil]
    exact ⟨⟨.nil, .nil⟩, fun _ => ⟨fun hne => absurd rfl hne, fun hne => absurd rfl hne⟩⟩
  | cons s rest ih =>
    obtain ⟨hs, hapart, hrest⟩ := h
    cases s with
    | code source =>
      obtain ⟨⟨hy, hy'⟩, hends⟩ := ih hrest source.toList
      obtain ⟨hend, hend'⟩ := hends (hapart rfl)
      have hstop : Stops isOpeningChar (Document.printFrom source.toList rest) := by
        intro c hc
        cases htext : Document.printFrom source.toList rest with
        | nil => rw [htext] at hc; exact absurd hc (by simp)
        | cons d tail =>
          have hopen := hend (by rw [htext]; exact List.cons_ne_nil d tail)
          obtain ⟨e, more, hmore, -⟩ := Progress.exists_of_opensMarkup hopen
          rw [hmore] at hc
          obtain rfl : '<' = c := Option.some.inj hc
          decide
      rw [Document.printFrom, hs.sweeps _ hstop]
      exact ⟨⟨.code hs.before hy hend, .code hs.after hy' hend'⟩,
        fun hcode => absurd hcode (by simp [Segment.isCode])⟩
    | markup root =>
      obtain ⟨⟨hy, hy'⟩, -⟩ := ih hrest []
      obtain ⟨x', hx⟩ :=
        Element.exists_sweepsElement root (isBlank_of_mem_trailingIndent before) hs.1
      rw [Document.printFrom, hx.sweeps]
      exact ⟨⟨.element hx.before hs.2 hy, .element hx.after hs.2 hy'⟩,
        fun _ => ⟨fun _ => hx.before.opens hs.2 _, fun _ => hx.after.opens hs.2 _⟩⟩

/-- A sound module is accepted when it is printed, and when it is swept after that. -/
theorem Document.exists_read_of_areSound {d : Document} (h : Segment.AreSound design d.segments) :
    (∃ d', Document.read (String.ofList d.print) = .ok d') ∧
      ∃ d', Document.read (String.ofList (sweptText design d.print)) = .ok d' := by
  obtain ⟨⟨hbefore, hafter⟩, -⟩ := h.isModuleText []
  exact ⟨hbefore.exists_read, hafter.exists_read⟩

end

end MarkupTidy
