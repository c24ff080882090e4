import MarkupTidy.Markup.Printer
import MarkupTidy.Markup.Verbatim

/-! # Printed text in passages

Where printed text can be misread depends on a few of its passages only: code and expressions,
whose ends a reader looks for in the text that follows, and the line breaks that the printer puts
in, which are to display nothing.

* `Passage`, `Passage.Legible`: a part of a printed text, and that it is read back in front of the
  text that follows it.
* `Element.passages`, `Document.passages`: what is printed, passage by passage.
* `Legible`: every passage is legible in front of those behind it. -/

namespace MarkupTidy

open MarkupTidy.Markup MarkupTidy.Text

/-- A part of a printed text. -/
inductive Passage where
  /-- Names, punctuation, quoted values and texts. -/
  | plain (cs : List Char)
  /-- A line break that the printer puts in, with the indentation after it. -/
  | layout (cs : List Char)
  | code (cs : List Char)
  /-- The source of an expression, written in braces. -/
  | expression (cs : List Char)

namespace Passage

/-- The passage as written. -/
def text : Passage → List Char
  | plain cs => cs
  | layout cs => cs
  | code cs => cs
  | expression cs => braced cs

/-- The passage is read back for what it is in front of the given text: code and expressions end
where they ended, a line break displays nothing. -/
def Legible : Passage → List Char → Prop
  | plain _, _ => True
  | layout cs, _ => isBlankText (String.ofList cs) = true
  | code cs, following => readCode none (cs ++ following) = (cs, following)
  | expression cs, following => readExpression? (cs ++ '\x7d' :: following) = some (cs, following)

/-- Passages as one text. -/
def join (ps : List Passage) : List Char :=
  ps.flatMap text

@[simp] theorem join_nil : join [] = [] := rfl

@[simp] theorem join_cons (p : Passage) (ps : List Passage) : join (p :: ps) = p.text ++ join ps :=
  List.flatMap_cons

@[simp] theorem join_append (ps qs : List Passage) : join (ps ++ qs) = join ps ++ join qs :=
  List.flatMap_append

end Passage

open Passage in
/-- Each of the passages is legible in front of those behind it and the text after them. -/
def Legible : List Passage → List Char → Prop
  | [], _ => True
  | p :: ps, following => p.Legible (join ps ++ following) ∧ Legible ps following

theorem legible_cons {p : Passage} {ps : List Passage} {following : List Char} :
    Legible (p :: ps) following ↔
      p.Legible (Passage.join ps ++ following) ∧ Legible ps following :=
  Iff.rfl

theorem legible_plain {cs following : List Char} {ps : List Passage} :
    Legible (.plain cs :: ps) following ↔ Legible ps following := by
  rw [legible_cons]
  exact and_iff_right trivial

theorem legible_append {ps qs : List Passage} {following : List Char} :
    Legible (ps ++ qs) following ↔
      Legible ps (Passage.join qs ++ following) ∧ Legible qs following := by
  induction ps with
  | nil => exact (and_iff_right trivial).symm
  | cons p ps ih =>
    rw [List.cons_append, legible_cons, legible_cons, ih, Passage.join_append, List.append_assoc,
      and_assoc]

/-! ### The passages of markup -/

/-- The passages of an attribute. -/
def Attribute.passages (a : Attribute) : List Passage :=
  match a.value with
  | .flag => [.plain a.name.toList]
  | .text value => [.plain (a.name.toList ++ '=' :: quotedValue value.toList)]
  | .style s => [.plain (a.name.toList ++ ['=']), .expression s.print]
  | .expression source =>
    if a.name = "" then [.expression source.toList]
    else [.plain (a.name.toList ++ ['=']), .expression source.toList]

/-- An attribute with an expression is legible if its expression is. -/
theorem legible_expression_iff {name source : String} {following : List Char} :
    Legible (Attribute.passages ⟨name, .expression source⟩) following ↔
      readExpression? (source.toList ++ '\x7d' :: following) = some (source.toList, following) := by
  simp only [Attribute.passages]
  split
  · exact and_iff_left trivial
  · rw [legible_plain]
    exact and_iff_left trivial

/-- The passages of attributes, each after a space, and of the end of their tag. -/
def Attributes.passages (as : Attributes) (selfClosing : Bool) : List Passage :=
  match as with
  | [] => [.plain (if selfClosing then [' ', '/', '>'] else ['>'])]
  | a :: rest => .plain [' '] :: (a.passages ++ Attributes.passages rest selfClosing)

/-- The passages of an opening tag. -/
def openPassages (tag : String) (attributes : Attributes) (selfClosing : Bool) : List Passage :=
  if tag = "" then [.plain ['<', '>']]
  else .plain ('<' :: tag.toList) :: attributes.passages selfClosing

mutual
/-- The passages of an element, with its lines after the first under an indentation. -/
def Element.passages : Element → List Char → List Passage
  | ⟨tag, attributes, children⟩, indent =>
    if children.isEmpty && tag ≠ "" then openPassages tag attributes true
    else if children.any Node.isText then
      openPassages tag attributes false ++
        (Node.inlinePassages children indent ++ [.plain (closeTag tag)])
    else
      match children with
      | [.expression source] =>
        openPassages tag attributes false ++
          [.expression source.toList, .plain (closeTag tag)]
      | _ =>
        openPassages tag attributes false ++
          (Node.linePassages children (indent ++ indentStep) ++
            [.layout ('\n' :: indent), .plain (closeTag tag)])

/-- The passages of children as they were laid out in the source. -/
def Node.inlinePassages : List Node → List Char → List Passage
  | [], _ => []
  | .text value :: rest, indent =>
    .plain value.toList :: Node.inlinePassages rest (indentAfter value.toList indent)
  | .expression source :: rest, indent =>
    .expression source.toList :: Node.inlinePassages rest indent
  | .element e :: rest, indent => e.passages indent ++ Node.inlinePassages rest indent

/-- The passages of children on a line each. -/
def Node.linePassages : List Node → List Char → List Passage
  | [], _ => []
  | .text value :: rest, indent =>
    .layout ('\n' :: indent) :: .plain value.toList :: Node.linePassages rest indent
  | .expression source :: rest, indent =>
    .layout ('\n' :: indent) :: .expression source.toList :: Node.linePassages rest indent
  | .element e :: rest, indent =>
    .layout ('\n' :: indent) :: (e.passages indent ++ Node.linePassages rest indent)
end

/-- The passages of segments, given the code just before them. -/
def Document.passagesFrom (before : List Char) : List Segment → List Passage
  | [] => []
  | .code source :: rest => .code source.toList :: passagesFrom source.toList rest
  | .markup root :: rest => root.passages (trailingIndent before) ++ passagesFrom [] rest

/-- The passages of a document. -/
def Document.passages (d : Document) : List Passage :=
  passagesFrom [] d.segments

/-! ### The four layouts of an element -/

/-- Children of an element with this tag that are written on a line each. -/
structure Node.OnLines (tag : String) (children : List Node) : Prop where
  notClosed : children = [] → tag = ""
  noText : children.any Node.isText = false
  notSingle : ∀ source, children ≠ [.expression source]

/-- An element closes itself, keeps the layout of its children, holds a single expression, or has
its children on lines. -/
theorem Element.layout_cases (tag : String) (children : List Node) :
    children = [] ∧ tag ≠ "" ∨ children.any Node.isText = true ∨
      (∃ source, children = [.expression source]) ∨ Node.OnLines tag children := by
  by_cases hclosed : children = [] ∧ tag ≠ ""
  · exact Or.inl hclosed
  refine Or.inr ?_
  cases htext : children.any Node.isText with
  | true => exact Or.inl rfl
  | false =>
    refine Or.inr ?_
    by_cases hsingle : ∃ source, children = [.expression source]
    · exact Or.inl hsingle
    · refine Or.inr ⟨fun hnil => ?_, htext, fun source heq => hsingle ⟨source, heq⟩⟩
      cases Decidable.em (tag = "") with
      | inl htag => exact htag
      | inr htag => exact absurd ⟨hnil, htag⟩ hclosed

section
variable {tag : String} {attributes : Attributes} {children : List Node}

theorem Node.isEmpty_of_any {p : Node → Bool} (h : children.any p = true) :
    children.isEmpty = false := by
  cases children with
  | nil => simp at h
  | cons n rest => rfl

theorem Node.OnLines.notSelfClosing (h : Node.OnLines tag children) :
    ¬(children.isEmpty && decide (tag ≠ "")) = true := by
  intro hclosed
  simp only [Bool.and_eq_true, List.isEmpty_iff, decide_eq_true_eq] at hclosed
  exact hclosed.2 (h.notClosed hclosed.1)

theorem Node.OnLines.not_any_isText (h : Node.OnLines tag children) :
    ¬children.any Node.isText = true := by
  rw [h.noText]
  exact Bool.false_ne_true

theorem Element.print_closed (htag : tag ≠ "") (indent : List Char) :
    (Element.mk tag attributes []).print indent = openTag tag attributes true := by
  simp [Element.print, htag]

theorem Element.print_inline (h : children.any Node.isText = true) (indent : List Char) :
    (Element.mk tag attributes children).print indent =
      openTag tag attributes false ++ (Node.printInline children indent ++ closeTag tag) := by
  simp [Element.print, h, Node.isEmpty_of_any h]

theorem Element.print_single (source : String) (indent : List Char) :
    (Element.mk tag attributes [.expression source]).print indent =
      openTag tag attributes false ++ (braced source.toList ++ closeTag tag) := by
  simp [Element.print, Node.isText]

theorem Element.print_lines (h : Node.OnLines tag children) (indent : List Char) :
    (Element.mk tag attributes children).print indent =
      openTag tag attributes false ++ (Node.printLines children (indent ++ indentStep) ++
        '\n' :: (indent ++ closeTag tag)) := by
  rw [Element.print.eq_def]
  dsimp only
  rw [if_neg h.notSelfClosing, if_neg h.not_any_isText]
  split
  · exact absurd rfl (h.notSingle _)
  · rw [List.append_assoc]

theorem Element.passages_closed (htag : tag ≠ "") (indent : List Char) :
    (Element.mk tag attributes []).passages indent = openPassages tag attributes true := by
  simp [Element.passages, htag]

theorem Element.passages_inline (h : children.any Node.isText = true) (indent : List Char) :
    (Element.mk tag attributes children).passages indent =
      openPassages tag attributes false ++
        (Node.inlinePassages children indent ++ [.plain (closeTag tag)]) := by
  simp [Element.passages, h, Node.isEmpty_of_any h]

theorem Element.passages_single (source : String) (indent : List Char) :
    (Element.mk tag attributes [.expression source]).passages indent =
      openPassages tag attributes false ++
        [.expression source.toList, .plain (closeTag tag)] := by
  simp [Element.passages, Node.isText]

theorem Element.passages_lines (h : Node.OnLines tag children) (indent : List Char) :
    (Element.mk tag attributes children).passages indent =
      openPassages tag attributes false ++
        (Node.linePassages children (indent ++ indentStep) ++
          [.layout ('\n' :: indent), .plain (closeTag tag)]) := by
  rw [Element.passages.eq_def]
  dsimp only
  rw [if_neg h.notSelfClosing, if_neg h.not_any_isText]
  split
  · exact absurd rfl (h.notSingle _)
  · rfl

end

/-! ### The passages are what is printed -/

open Passage (join)

theorem Attribute.join_passages (a : Attribute) : join a.passages = a.print := by
  obtain ⟨name, value⟩ := a
  cases value with
  | flag => simp [Attribute.passages, Attribute.print, Passage.text]
  | text value => simp [Attribute.passages, Attribute.print, Passage.text]
  | style s => simp [Attribute.passages, Attribute.print, Passage.text]
  | expression source =>
    simp only [Attribute.passages, Attribute.print]
    split <;> simp [Passage.text]

theorem Attributes.join_passages (first : List Char) (as : Attributes) (selfClosing : Bool) :
    first ++ join (as.passages selfClosing) =
      List.intercalate [' '] (first :: as.map Attribute.print) ++
        (if selfClosing then [' ', '/', '>'] else ['>']) := by
  induction as generalizing first with
  | nil => simp [Attributes.passages, Passage.text, List.intercalate]
  | cons a rest ih =>
    rw [Attributes.passages, Passage.join_cons, Passage.join_append, Attribute.join_passages,
      List.map_cons, ih]
    simp [Passage.text, List.intercalate]

theorem join_openPassages (tag : String) (attributes : Attributes) (selfClosing : Bool) :
    join (openPassages tag attributes selfClosing) = openTag tag attributes selfClosing := by
  unfold openPassages openTag
  split
  · rfl
  · rw [Passage.join_cons, Passage.text, List.cons_append, Attributes.join_passages]

mutual
theorem Element.join_passages : (e : Element) → (indent : List Char) →
    join (e.passages indent) = e.print indent
  | ⟨tag, attributes, children⟩, indent => by
    obtain ⟨rfl, htag⟩ | htext | ⟨source, rfl⟩ | hlines := Element.layout_cases tag children
    · rw [Element.passages_closed htag, Element.print_closed htag, join_openPassages]
    · rw [Element.passages_inline htext, Element.print_inline htext, Passage.join_append,
        Passage.join_append, join_openPassages, Node.join_inlinePassages children]
      simp [Passage.text]
    · rw [Element.passages_single, Element.print_single, Passage.join_append, join_openPassages]
      simp [Passage.text]
    · rw [Element.passages_lines hlines, Element.print_lines hlines, Passage.join_append,
        Passage.join_append, join_openPassages, Node.join_linePassages children]
      simp [Passage.text]

theorem Node.join_inlinePassages : (ns : List Node) → (indent : List Char) →
    join (Node.inlinePassages ns indent) = Node.printInline ns indent
  | [], _ => rfl
  | .text value :: rest, indent => by
    rw [Node.inlinePassages, Node.printInline, Passage.join_cons, Node.join_inlinePassages rest]
    rfl
  | .expression source :: rest, indent => by
    rw [Node.inlinePassages, Node.printInline, Passage.join_cons, Node.join_inlinePassages rest]
    rfl
  | .element e :: rest, indent => by
    rw [Node.inlinePassages, Node.printInline, Passage.join_append, Element.join_passages e,
      Node.join_inlinePassages rest]

theorem Node.join_linePassages : (ns : List Node) → (indent : List Char) →
    join (Node.linePassages ns indent) = Node.printLines ns indent
  | [], _ => rfl
  | .text value :: rest, indent => by
    simp [Node.linePassages, Node.printLines, Node.join_linePassages rest, Passage.text]
  | .expression source :: rest, indent => by
    simp [Node.linePassages, Node.printLines, Node.join_linePassages rest, Passage.text]
  | .element e :: rest, indent => by
    simp [Node.linePassages, Node.printLines, Element.join_passages e, Node.join_linePassages rest,
      Passage.text]
end

theorem Document.join_passagesFrom (before : List Char) (segments : List Segment) :
    join (passagesFrom before segments) = printFrom before segments := by
  induction segments generalizing before with
  | nil => rfl
  | cons s rest ih =>
    cases s with
    | code source =>
      rw [passagesFrom, printFrom, Passage.join_cons, ih]
      rfl
    | markup root => rw [passagesFrom, printFrom, Passage.join_append, Element.join_passages, ih]

/-- The passages of a document are its printed text. -/
theorem Document.join_passages (d : Document) : join d.passages = d.print :=
  join_passagesFrom [] d.segments

end MarkupTidy
