import MarkupTidy.Proofs.Markup.Legible
import MarkupTidy.Proofs.Text.Search
import MarkupTidy.Utility.Sweep

/-! # Trees and their layout

Printing puts line breaks between children that have none.  Read back, these are texts of their
own: the tree that is printed gains texts that display nothing.

* `Element.dropBlank`, `Document.dropBlank`: without the texts that display nothing.
* `Element.laidOut`, `Document.laidOut`: with the line breaks of the printed text as children.
* `Element.print_laidOut`: the layout of the printed text is kept, under any indentation.
* `Element.dropBlank_laidOut`: where it is legible, the layout displays nothing.
* `Attribute.print_isInfix_openTag`, `Element.openTag_isInfix_print`: every element is printed with its
  tag, and every attribute within that tag; `Document.classes_isInfix_print`: so is a class text. -/

namespace MarkupTidy

open MarkupTidy.Markup MarkupTidy.Text

mutual
/-- The element without texts that display nothing. -/
def Element.dropBlank : Element → Element
  | ⟨tag, attributes, children⟩ => ⟨tag, attributes, Node.dropBlankAll children⟩

/-- The nodes without texts that display nothing. -/
def Node.dropBlankAll : List Node → List Node
  | [] => []
  | .text value :: rest =>
    if isBlankText value then Node.dropBlankAll rest else .text value :: Node.dropBlankAll rest
  | .expression source :: rest => .expression source :: Node.dropBlankAll rest
  | .element e :: rest => .element e.dropBlank :: Node.dropBlankAll rest
end

/-- The segment without texts that display nothing. -/
def Segment.dropBlank : Segment → Segment
  | .code source => .code source
  | .markup root => .markup root.dropBlank

/-- The document without texts that display nothing. -/
def Document.dropBlank (d : Document) : Document :=
  ⟨d.segments.map Segment.dropBlank⟩

/-- The text child that a line break with an indentation is read as. -/
def lineBreak (indent : List Char) : Node :=
  .text (String.ofList ('\n' :: indent))

mutual
/-- The element that is read where an element is written under an indentation. -/
def Element.laidOut : Element → List Char → Element
  | ⟨tag, attributes, children⟩, indent =>
    if children.isEmpty && tag ≠ "" then ⟨tag, attributes, []⟩
    else if children.any Node.isText then ⟨tag, attributes, Node.laidInline children indent⟩
    else
      match children with
      | [.expression source] => ⟨tag, attributes, [.expression source]⟩
      | _ =>
        ⟨tag, attributes, Node.laidLines children (indent ++ indentStep) ++ [lineBreak indent]⟩

/-- The children that are read where children are written as they were laid out. -/
def Node.laidInline : List Node → List Char → List Node
  | [], _ => []
  | .text value :: rest, indent =>
    .text value :: Node.laidInline rest (indentAfter value.toList indent)
  | .expression source :: rest, indent => .expression source :: Node.laidInline rest indent
  | .element e :: rest, indent => .element (e.laidOut indent) :: Node.laidInline rest indent

/-- The children that are read where children are written on a line each. -/
def Node.laidLines : List Node → List Char → List Node
  | [], _ => []
  | .text value :: rest, indent =>
    lineBreak indent :: .text value :: Node.laidLines rest indent
  | .expression source :: rest, indent =>
    lineBreak indent :: .expression source :: Node.laidLines rest indent
  | .element e :: rest, indent =>
    lineBreak indent :: .element (e.laidOut indent) :: Node.laidLines rest indent
end

/-- The segments that are read where segments are written, given the code just before them. -/
def Document.laidOutFrom (before : List Char) : List Segment → List Segment
  | [] => []
  | .code source :: rest => .code source :: laidOutFrom source.toList rest
  | .markup root :: rest => .markup (root.laidOut (trailingIndent before)) :: laidOutFrom [] rest

/-- The document that is read where a document is written. -/
def Document.laidOut (d : Document) : Document :=
  ⟨laidOutFrom [] d.segments⟩

section
variable {tag : String} {attributes : Attributes} {children : List Node}

theorem Element.laidOut_closed (htag : tag ≠ "") (indent : List Char) :
    (Element.mk tag attributes []).laidOut indent = ⟨tag, attributes, []⟩ := by
  simp [Element.laidOut, htag]

theorem Element.laidOut_inline (h : children.any Node.isText = true) (indent : List Char) :
    (Element.mk tag attributes children).laidOut indent =
      ⟨tag, attributes, Node.laidInline children indent⟩ := by
  simp [Element.laidOut, h, Node.isEmpty_of_any h]

theorem Element.laidOut_single (source : String) (indent : List Char) :
    (Element.mk tag attributes [.expression source]).laidOut indent =
      ⟨tag, attributes, [.expression source]⟩ := by
  simp [Element.laidOut, Node.isText]

theorem Element.laidOut_lines (h : Node.OnLines tag children) (indent : List Char) :
    (Element.mk tag attributes children).laidOut indent =
      ⟨tag, attributes,
        Node.laidLines children (indent ++ indentStep) ++ [lineBreak indent]⟩ := by
  rw [Element.laidOut.eq_def]
  dsimp only
  rw [if_neg h.notSelfClosing, if_neg h.not_any_isText]
  split
  · exact absurd rfl (h.notSingle _)
  · rfl

end

/-! ### Printing a tree that was laid out -/

theorem Node.any_isText_laidInline (ns : List Node) (indent : List Char) :
    (Node.laidInline ns indent).any Node.isText = ns.any Node.isText := by
  induction ns generalizing indent with
  | nil => rfl
  | cons n rest ih =>
    cases n with
    | text _ => simp only [Node.laidInline, List.any_cons, ih]
    | expression _ => simp only [Node.laidInline, List.any_cons, ih]
    | element _ =>
      simp only [Node.laidInline, List.any_cons, ih]
      rfl

mutual
/-- What was laid out is printed as it was written, under any indentation. -/
theorem Element.print_laidOut : (e : Element) → (indent other : List Char) →
    (e.laidOut indent).print other = e.print indent
  | ⟨tag, attributes, children⟩, indent, other => by
    obtain ⟨rfl, htag⟩ | htext | ⟨source, rfl⟩ | hlines := Element.layout_cases tag children
    · rw [Element.laidOut_closed htag, Element.print_closed htag, Element.print_closed htag]
    · rw [Element.laidOut_inline htext, Element.print_inline htext,
        Element.print_inline (by rw [Node.any_isText_laidInline, htext]),
        Node.printInline_laidInline children]
    · rw [Element.laidOut_single, Element.print_single, Element.print_single]
    · rw [Element.laidOut_lines hlines, Element.print_lines hlines,
        Element.print_inline (by simp [lineBreak, Node.isText]), lineBreak,
        Node.printInline_laidLines children, String.toList_ofList]
      simp

theorem Node.printInline_laidInline : (ns : List Node) → (indent other : List Char) →
    Node.printInline (Node.laidInline ns indent) other = Node.printInline ns indent
  | [], _, _ => rfl
  | .text value :: rest, indent, other => by
    rw [Node.laidInline, Node.printInline, Node.printInline, Node.printInline_laidInline rest]
  | .expression source :: rest, indent, other => by
    rw [Node.laidInline, Node.printInline, Node.printInline, Node.printInline_laidInline rest]
  | .element e :: rest, indent, other => by
    rw [Node.laidInline, Node.printInline, Node.printInline, Element.print_laidOut e,
      Node.printInline_laidInline rest]

theorem Node.printInline_laidLines : (ns : List Node) → (indent other : List Char) →
    (last : String) → Node.printInline (Node.laidLines ns indent ++ [.text last]) other =
      Node.printLines ns indent ++ last.toList
  | [], _, _, _ => by simp [Node.laidLines, Node.printInline, Node.printLines]
  | .text value :: rest, indent, other, last => by
    simp [Node.laidLines, lineBreak, Node.printInline, Node.printLines,
      Node.printInline_laidLines rest]
  | .expression source :: rest, indent, other, last => by
    simp [Node.laidLines, lineBreak, Node.printInline, Node.printLines,
      Node.printInline_laidLines rest]
  | .element e :: rest, indent, other, last => by
    simp [Node.laidLines, lineBreak, Node.printInline, Node.printLines, Element.print_laidOut e,
      Node.printInline_laidLines rest]
end

theorem Document.printFrom_laidOutFrom (before : List Char) (segments : List Segment) :
    printFrom before (laidOutFrom before segments) = printFrom before segments := by
  induction segments generalizing before with
  | nil => rfl
  | cons s rest ih =>
    cases s with
    | code source => rw [laidOutFrom, printFrom, printFrom, ih]
    | markup root => rw [laidOutFrom, printFrom, printFrom, Element.print_laidOut, ih]

theorem Document.print_laidOut (d : Document) : d.laidOut.print = d.print :=
  printFrom_laidOutFrom [] d.segments

/-! ### What the layout displays -/

theorem Node.dropBlankAll_append (ns ms : List Node) :
    Node.dropBlankAll (ns ++ ms) = Node.dropBlankAll ns ++ Node.dropBlankAll ms := by
  induction ns with
  | nil => rfl
  | cons n rest ih =>
    cases n with
    | text value =>
      simp only [List.cons_append, Node.dropBlankAll, ih]
      split <;> rfl
    | expression source => simp only [List.cons_append, Node.dropBlankAll, ih]
    | element e => simp only [List.cons_append, Node.dropBlankAll, ih]

theorem Node.dropBlankAll_lineBreak {indent : List Char} (ns : List Node)
    (h : isBlankText (String.ofList ('\n' :: indent)) = true) :
    Node.dropBlankAll (lineBreak indent :: ns) = Node.dropBlankAll ns := by
  rw [lineBreak, Node.dropBlankAll, if_pos h]

mutual
/-- A legible layout displays nothing. -/
theorem Element.dropBlank_laidOut : (e : Element) → (indent following : List Char) →
    Legible (e.passages indent) following → (e.laidOut indent).dropBlank = e.dropBlank
  | ⟨tag, attributes, children⟩, indent, following, h => by
    obtain ⟨rfl, htag⟩ | htext | ⟨source, rfl⟩ | hlines := Element.layout_cases tag children
    · rw [Element.laidOut_closed htag]
    · rw [Element.passages_inline htext, legible_append, legible_append] at h
      rw [Element.laidOut_inline htext, Element.dropBlank, Element.dropBlank,
        Node.dropBlankAll_laidInline children _ _ h.2.1]
    · rw [Element.laidOut_single]
    · rw [Element.passages_lines hlines, legible_append, legible_append] at h
      rw [Element.laidOut_lines hlines, Element.dropBlank, Element.dropBlank,
        Node.dropBlankAll_append, Node.dropBlankAll_laidLines children _ _ h.2.1,
        Node.dropBlankAll_lineBreak [] (legible_cons.1 h.2.2).1, Node.dropBlankAll,
        List.append_nil]

theorem Node.dropBlankAll_laidInline : (ns : List Node) → (indent following : List Char) →
    Legible (Node.inlinePassages ns indent) following →
      Node.dropBlankAll (Node.laidInline ns indent) = Node.dropBlankAll ns
  | [], _, _, _ => rfl
  | .text value :: rest, indent, following, h => by
    rw [Node.inlinePassages, legible_cons] at h
    rw [Node.laidInline, Node.dropBlankAll, Node.dropBlankAll,
      Node.dropBlankAll_laidInline rest _ _ h.2]
  | .expression source :: rest, indent, following, h => by
    rw [Node.inlinePassages, legible_cons] at h
    rw [Node.laidInline, Node.dropBlankAll, Node.dropBlankAll,
      Node.dropBlankAll_laidInline rest _ _ h.2]
  | .element e :: rest, indent, following, h => by
    rw [Node.inlinePassages, legible_append] at h
    rw [Node.laidInline, Node.dropBlankAll, Node.dropBlankAll,
      Element.dropBlank_laidOut e _ _ h.1, Node.dropBlankAll_laidInline rest _ _ h.2]

theorem Node.dropBlankAll_laidLines : (ns : List Node) → (indent following : List Char) →
    Legible (Node.linePassages ns indent) following →
      Node.dropBlankAll (Node.laidLines ns indent) = Node.dropBlankAll ns
  | [], _, _, _ => rfl
  | .text value :: rest, indent, following, h => by
    rw [Node.linePassages, legible_cons, legible_cons] at h
    rw [Node.laidLines, Node.dropBlankAll_lineBreak _ h.1, Node.dropBlankAll, Node.dropBlankAll,
      Node.dropBlankAll_laidLines rest _ _ h.2.2]
  | .expression source :: rest, indent, following, h => by
    rw [Node.linePassages, legible_cons, legible_cons] at h
    rw [Node.laidLines, Node.dropBlankAll_lineBreak _ h.1, Node.dropBlankAll, Node.dropBlankAll,
      Node.dropBlankAll_laidLines rest _ _ h.2.2]
  | .element e :: rest, indent, following, h => by
    rw [Node.linePassages, legible_cons, legible_append] at h
    rw [Node.laidLines, Node.dropBlankAll_lineBreak _ h.1, Node.dropBlankAll, Node.dropBlankAll,
      Element.dropBlank_laidOut e _ _ h.2.1, Node.dropBlankAll_laidLines rest _ _ h.2.2]
end

theorem Document.dropBlank_laidOutFrom {before : List Char} {segments : List Segment}
    (h : Legible (passagesFrom before segments) []) :
    (laidOutFrom before segments).map Segment.dropBlank = segments.map Segment.dropBlank := by
  induction segments generalizing before with
  | nil => rfl
  | cons s rest ih =>
    cases s with
    | code source =>
      rw [passagesFrom, legible_cons] at h
      rw [laidOutFrom, List.map_cons, List.map_cons, ih h.2]
    | markup root =>
      rw [passagesFrom, legible_append] at h
      rw [laidOutFrom, List.map_cons, List.map_cons, ih h.2, Segment.dropBlank, Segment.dropBlank,
        Element.dropBlank_laidOut root _ _ h.1]

/-- The layout of a legible document displays nothing. -/
theorem Document.dropBlank_laidOut {d : Document} (h : Legible d.passages []) :
    d.laidOut.dropBlank = d.dropBlank := by
  rw [dropBlank, laidOut, dropBlank, dropBlank_laidOutFrom h]

/-! ### Tags in printed markup -/

/-- An attribute is printed within the tag of its element. -/
theorem Attribute.print_isInfix_openTag {a : Attribute} {attributes : Attributes}
    (h : a ∈ attributes) {tag : String} (htag : tag ≠ "") (closed : Bool) :
    a.print <:+: openTag tag attributes closed := by
  have hparts : a.print ∈ tag.toList :: attributes.map Attribute.print :=
    List.mem_cons_of_mem _ (List.mem_map_of_mem h)
  rw [openTag, if_neg htag]
  exact List.infix_cons (List.infix_append_of_infix_left (isInfix_intercalate [' '] hparts))

/-- The text of the first attribute of a name is printed behind the name. -/
theorem Attributes.exists_print_of_text? {attributes : Attributes} {name value : String}
    (h : attributes.text? name = some value) :
    ∃ a ∈ attributes, a.print = name.toList ++ '=' :: quotedValue value.toList := by
  unfold text? at h
  split at h
  · rename_i text hvalue
    obtain ⟨a, hfind, hvalue⟩ := Option.map_eq_some_iff.1 hvalue
    obtain rfl := Option.some.inj h
    have hname : a.name = name := by simpa using List.find?_some hfind
    refine ⟨a, List.mem_of_find?_eq_some hfind, ?_⟩
    rw [Attribute.print, hvalue, hname]
  · exact absurd h (by simp)

section
variable {x : Element}

mutual
/-- The tag of every element below another one, and its own, is printed. -/
theorem Element.openTag_isInfix_print : ∀ (e : Element) (indent : List Char), x ∈ e.preorder →
    ∃ closed, openTag x.tag x.attributes closed <:+: e.print indent
  | ⟨tag, attributes, children⟩, indent, hx => by
    rw [Element.preorder] at hx
    obtain ⟨rfl, htag⟩ | htext | ⟨source, rfl⟩ | hlines := Element.layout_cases tag children
    · obtain rfl := List.mem_singleton.1 hx
      rw [Element.print_closed htag]
      exact ⟨true, List.infix_refl _⟩
    · rw [Element.print_inline htext]
      obtain rfl | hx := List.mem_cons.1 hx
      · exact ⟨false, List.infix_append_left⟩
      · obtain ⟨closed, h⟩ := Node.openTag_isInfix_printInline children indent hx
        exact ⟨closed, List.infix_append_of_infix_right (List.infix_append_of_infix_left h)⟩
    · obtain rfl := List.mem_singleton.1 hx
      rw [Element.print_single]
      exact ⟨false, List.infix_append_left⟩
    · rw [Element.print_lines hlines]
      obtain rfl | hx := List.mem_cons.1 hx
      · exact ⟨false, List.infix_append_left⟩
      · obtain ⟨closed, h⟩ := Node.openTag_isInfix_printLines children (indent ++ indentStep) hx
        exact ⟨closed, List.infix_append_of_infix_right (List.infix_append_of_infix_left h)⟩

theorem Node.openTag_isInfix_printInline : ∀ (ns : List Node) (indent : List Char),
    x ∈ Node.preorderAll ns →
      ∃ closed, openTag x.tag x.attributes closed <:+: Node.printInline ns indent
  | [], _, hx => absurd hx List.not_mem_nil
  | .text value :: rest, indent, hx =>
    have ⟨closed, h⟩ := Node.openTag_isInfix_printInline rest (indentAfter value.toList indent) hx
    ⟨closed, List.infix_append_of_infix_right h⟩
  | .expression source :: rest, indent, hx =>
    have ⟨closed, h⟩ := Node.openTag_isInfix_printInline rest indent hx
    ⟨closed, List.infix_append_of_infix_right h⟩
  | .element e :: rest, indent, hx => by
    rw [Node.preorderAll] at hx
    rw [Node.printInline]
    obtain hx | hx := List.mem_append.1 hx
    · obtain ⟨closed, h⟩ := Element.openTag_isInfix_print e indent hx
      exact ⟨closed, List.infix_append_of_infix_left h⟩
    · obtain ⟨closed, h⟩ := Node.openTag_isInfix_printInline rest indent hx
      exact ⟨closed, List.infix_append_of_infix_right h⟩

theorem Node.openTag_isInfix_printLines : ∀ (ns : List Node) (indent : List Char),
    x ∈ Node.preorderAll ns →
      ∃ closed, openTag x.tag x.attributes closed <:+: Node.printLines ns indent
  | [], _, hx => absurd hx List.not_mem_nil
  | .text value :: rest, indent, hx =>
    have ⟨closed, h⟩ := Node.openTag_isInfix_printLines rest indent hx
    ⟨closed, List.infix_append_of_infix_right h⟩
  | .expression source :: rest, indent, hx =>
    have ⟨closed, h⟩ := Node.openTag_isInfix_printLines rest indent hx
    ⟨closed, List.infix_append_of_infix_right h⟩
  | .element e :: rest, indent, hx => by
    rw [Node.preorderAll] at hx
    rw [Node.printLines]
    obtain hx | hx := List.mem_append.1 hx
    · obtain ⟨closed, h⟩ := Element.openTag_isInfix_print e indent hx
      exact ⟨closed, List.infix_append_of_infix_left
        (List.infix_cons (List.infix_append_of_infix_right h))⟩
    · obtain ⟨closed, h⟩ := Node.openTag_isInfix_printLines rest indent hx
      exact ⟨closed, List.infix_append_of_infix_right h⟩
end

theorem Document.openTag_isInfix_printFrom {segments : List Segment} (before : List Char)
    (hx : x ∈ (Document.mk segments).elements) :
    ∃ closed, openTag x.tag x.attributes closed <:+: printFrom before segments := by
  induction segments generalizing before with
  | nil => exact absurd hx List.not_mem_nil
  | cons segment rest ih =>
    cases segment with
    | code source =>
      obtain ⟨closed, h⟩ := ih source.toList hx
      exact ⟨closed, List.infix_append_of_infix_right h⟩
    | markup root =>
      obtain hx | hx := List.mem_append.1 hx
      · obtain ⟨closed, h⟩ := Element.openTag_isInfix_print root (trailingIndent before) hx
        exact ⟨closed, List.infix_append_of_infix_left h⟩
      · obtain ⟨closed, h⟩ := ih [] hx
        exact ⟨closed, List.infix_append_of_infix_right h⟩

/-- The class text of every element but a fragment is printed as a class attribute. -/
theorem Document.classes_isInfix_print {d : Document} (hx : x ∈ d.elements) (htag : x.tag ≠ "")
    {value : String} (hvalue : x.attributes.text? classAttribute = some value) :
    ∃ quote, (ClassPiece.classes quote value.toList).text <:+: d.print := by
  obtain ⟨closed, htext⟩ := Document.openTag_isInfix_printFrom [] hx
  obtain ⟨a, ha, hprint⟩ := Attributes.exists_print_of_text? hvalue
  refine ⟨if value.toList.contains '"' then '\'' else '"', ?_⟩
  have hpiece := ((Attribute.print_isInfix_openTag ha htag closed).trans htext)
  rwa [hprint] at hpiece

end

end MarkupTidy
