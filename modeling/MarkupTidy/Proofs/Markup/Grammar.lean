import MarkupTidy.Proofs.Markup.Locality

/-! # The grammar of a module

The scanner keeps a stack of open elements.  Here the sources that it accepts are described without
one: an element is an opening tag, its content and a closing tag, whatever the names in the two
tags are.

* `ParseTree`, `ParseSegment`: what a source is made of, with the names that close its elements;
  `ParseTree.postorder` lists the elements in the order in which they end.
* `ParsesElement`, `ParsesContent`, `ParsesModule`: which trees a text has.
* `ParsesElement.readFrom`, `ParsesContent.readFrom`: the scanner follows a tree over the whole of
  its text, whatever else is open or has been read.
* `Scan.read_iff_parsesModule`: the sources that are accepted are those with trees, and a scan
  holds the trees and their closing tags in that order. -/

namespace MarkupTidy

open MarkupTidy.Markup MarkupTidy.Text

/-! ### Trees -/

mutual
/-- An element of a source: its opening tag, what stands between the tags, and the name in its
closing tag.  A fragment and a tag that closes itself have no such name. -/
structure ParseTree where
  opening : Opening
  content : List ParseNode
  closing? : Option ClosingName

/-- A child of an element of a source. -/
inductive ParseNode where
  | tree (t : ParseTree)
  | text (value : String)
  | expression (source : String)
end

/-- A part of a source. -/
inductive ParseSegment where
  | code (source : String)
  | markup (root : ParseTree)

mutual
/-- The element that is meant if the names of all tags agree. -/
def ParseTree.element : ParseTree → Element
  | ⟨opening, content, _⟩ => ⟨opening.tag, opening.attributes, ParseNode.nodes content⟩

/-- The children that are meant. -/
def ParseNode.nodes : List ParseNode → List Node
  | [] => []
  | .tree t :: rest => .element t.element :: ParseNode.nodes rest
  | .text value :: rest => .text value :: ParseNode.nodes rest
  | .expression source :: rest => .expression source :: ParseNode.nodes rest
end

mutual
/-- A tree and all trees below it, each after those below it and those before it: the order in which
elements end. -/
def ParseTree.postorder : ParseTree → List ParseTree
  | ⟨opening, content, closing?⟩ =>
    ParseNode.postorderAll content ++ [⟨opening, content, closing?⟩]

/-- All trees among and below nodes, in the order in which they end. -/
def ParseNode.postorderAll : List ParseNode → List ParseTree
  | [] => []
  | .tree t :: rest => t.postorder ++ ParseNode.postorderAll rest
  | .text _ :: rest => ParseNode.postorderAll rest
  | .expression _ :: rest => ParseNode.postorderAll rest
end

namespace ParseTree

/-- Whether the closing tag, if there is one, has the name of the opening tag. -/
def agrees (t : ParseTree) : Bool :=
  t.closing?.all fun closing => t.opening.tag = closing.name

/-- The two names of an element with a closing tag. -/
def closedTag? (t : ParseTree) : Option ClosedTag :=
  t.closing?.map fun closing => ⟨t.opening.tag, closing⟩

/-- The closing tags of elements. -/
def closedTags (ts : List ParseTree) : List ClosedTag :=
  ts.filterMap closedTag?

theorem closedTags_append (ts us : List ParseTree) :
    closedTags (ts ++ us) = closedTags ts ++ closedTags us :=
  List.filterMap_append

theorem closedTags_singleton (t : ParseTree) : closedTags [t] = t.closedTag?.toList := by
  rw [closedTags, List.filterMap_cons, List.filterMap_nil]
  cases t.closedTag? <;> rfl

end ParseTree

namespace ParseSegment

/-- The segment that is meant. -/
def segment : ParseSegment → Segment
  | code source => .code source
  | markup root => .markup root.element

/-- The trees of a segment, in the order in which they end. -/
def postorder : ParseSegment → List ParseTree
  | code _ => []
  | markup root => root.postorder

/-- The trees of a module, in the order in which they end. -/
def postorderAll (segments : List ParseSegment) : List ParseTree :=
  segments.flatMap postorder

theorem postorderAll_markup (root : ParseTree) (segments : List ParseSegment) :
    postorderAll (.markup root :: segments) = root.postorder ++ postorderAll segments :=
  rfl

end ParseSegment

/-! ### Texts -/

mutual
/-- The text begins with the tree and goes on with the given rest. -/
inductive ParsesElement : List Char → ParseTree → List Char → Prop where
  | selfClosing {cs rest : List Char} {opening : Opening}
      (hread : readOpening cs = .ok (opening, rest)) (hclosed : opening.closed = true) :
      ParsesElement ('<' :: cs) ⟨opening, [], none⟩ rest
  | fragment {cs after rest : List Char} {opening : Opening} {content : List ParseNode}
      (hread : readOpening cs = .ok (opening, after)) (hclosed : opening.closed = false)
      (htag : opening.tag = "")
      (hcontent : ParsesContent after content ('<' :: '/' :: '>' :: rest)) :
      ParsesElement ('<' :: cs) ⟨opening, content, none⟩ rest
  | paired {cs after ending rest : List Char} {opening : Opening} {content : List ParseNode}
      {closing : ClosingName} (hread : readOpening cs = .ok (opening, after))
      (hclosed : opening.closed = false) (htag : opening.tag ≠ "")
      (hcontent : ParsesContent after content ('<' :: '/' :: ending))
      (hending : readClosing ending = .ok (closing, rest)) :
      ParsesElement ('<' :: cs) ⟨opening, content, some closing⟩ rest

/-- The text begins with the children and goes on with a closing tag. -/
inductive ParsesContent : List Char → List ParseNode → List Char → Prop where
  | nil {ending : List Char} : ParsesContent ('<' :: '/' :: ending) [] ('<' :: '/' :: ending)
  | tree {cs after rest : List Char} {t : ParseTree} {content : List ParseNode}
      (hslash : cs.head? ≠ some '/') (helement : ParsesElement ('<' :: cs) t after)
      (hmore : ParsesContent after content rest) :
      ParsesContent ('<' :: cs) (.tree t :: content) rest
  | text {value after rest : List Char} {content : List ParseNode} (hne : value ≠ [])
      (hall : ∀ c ∈ value, Progress.isTextChar c = true) (hstop : Stops Progress.isTextChar after)
      (hmore : ParsesContent after content rest) :
      ParsesContent (value ++ after) (.text (String.ofList value) :: content) rest
  | expression {cs source after rest : List Char} {content : List ParseNode}
      (hread : readExpression? cs = some (source, after))
      (hmore : ParsesContent after content rest) :
      ParsesContent ('\x7b' :: cs) (.expression (String.ofList source) :: content) rest
end

/-- The text is a module with the given segments. -/
inductive ParsesModule : List Char → List ParseSegment → Prop where
  | nil : ParsesModule [] []
  | code {cs : List Char} {more : List ParseSegment} (hne : cs ≠ [])
      (hopen : opensMarkup none cs = false) (hmore : ParsesModule (readCode none cs).2 more) :
      ParsesModule cs (.code (String.ofList (readCode none cs).1) :: more)
  | markup {cs rest : List Char} {t : ParseTree} {more : List ParseSegment}
      (hopen : opensMarkup none cs = true) (helement : ParsesElement cs t rest)
      (hmore : ParsesModule rest more) : ParsesModule cs (.markup t :: more)

/-! ### The scanner follows a tree -/

/-- A frame with more children. -/
def Frame.filled (f : Frame) (content : List ParseNode) : Frame :=
  { f with content := (ParseNode.nodes content).reverse ++ f.content }

/-- The first child is pushed before the others. -/
theorem Frame.filled_cons {n : ParseNode} {m : Node} {content : List ParseNode} (f : Frame)
    (hnode : ParseNode.nodes (n :: content) = m :: ParseNode.nodes content) :
    (f.push m).filled content = f.filled (n :: content) := by
  rw [filled, filled, push, hnode, List.reverse_cons, List.append_assoc, List.singleton_append]

/-- The element of a new frame that was filled. -/
theorem Frame.close_filled (opening : Opening) (content : List ParseNode)
    (closing? : Option ClosingName) :
    (Frame.filled ⟨opening.tag, opening.attributes, []⟩ content).close =
      (ParseTree.mk opening content closing?).element := by
  rw [Frame.close, Frame.filled, List.append_nil, List.reverse_reverse, ParseTree.element]

namespace Progress

/-- The progress after a whole tree. -/
def finished (p : Progress) (t : ParseTree) : Progress :=
  { p with closed := (ParseTree.closedTags t.postorder).reverse ++ p.closed }.attach t.element

/-- An element may begin here: outside all elements where markup opens, inside one where no
closing tag stands. -/
def Admits (p : Progress) (cs : List Char) : Prop :=
  if p.frames = [] then opensMarkup none ('<' :: cs) = true else cs.head? ≠ some '/'

variable {p : Progress} {cs after : List Char} {opening : Opening}

theorem Admits.readFrom_opening (h : p.Admits cs) (hread : readOpening cs = .ok (opening, after)) :
    Scan.readFrom p ('<' :: cs) = Scan.readFrom (p.opened opening) after := by
  cases hframes : p.frames with
  | nil =>
    rw [Admits, if_pos hframes] at h
    exact Scan.readFrom_of_step (List.cons_ne_nil _ _) (step_root hframes h hread)
  | cons inner outer =>
    rw [Admits, if_neg (by rw [hframes]; exact List.cons_ne_nil _ _)] at h
    exact Scan.readFrom_of_contentStep hframes (.opening h hread)

theorem admits_of_frames {inner : Frame} {outer : List Frame} (hframes : p.frames = inner :: outer)
    (hslash : cs.head? ≠ some '/') : p.Admits cs := by
  rwa [Admits, hframes, if_neg (List.cons_ne_nil _ _)]

theorem admits_of_root (hframes : p.frames = []) (hopen : opensMarkup none ('<' :: cs) = true) :
    p.Admits cs := by
  rwa [Admits, if_pos hframes]

end Progress

/-- The end of a new frame that was filled. -/
theorem Progress.ended_filled (p : Progress) (opening : Opening) (content : List ParseNode)
    (closing? : Option ClosingName) :
    (Progress.mk (Frame.filled ⟨opening.tag, opening.attributes, []⟩ content :: p.frames) p.segments
        ((ParseTree.closedTags (ParseNode.postorderAll content)).reverse ++ p.closed)).ended
      (Frame.filled ⟨opening.tag, opening.attributes, []⟩ content) p.frames
      (ParseTree.mk opening content closing?).closedTag?.toList =
      p.finished ⟨opening, content, closing?⟩ := by
  have hreverse : ∀ tag? : Option ClosedTag, tag?.toList.reverse = tag?.toList := by
    rintro (_ | _) <;> rfl
  rw [Progress.ended, Progress.finished, Frame.close_filled _ _ closing?, ParseTree.postorder,
    ParseTree.closedTags_append, ParseTree.closedTags_singleton, List.reverse_append, hreverse,
    List.append_assoc]

mutual
/-- Over the text of a tree, a scan adds its element and the closing tags in it. -/
theorem ParsesElement.readFrom {cs rest : List Char} {t : ParseTree}
    (h : ParsesElement ('<' :: cs) t rest) (p : Progress) (hadmits : p.Admits cs) :
    Scan.readFrom p ('<' :: cs) = Scan.readFrom (p.finished t) rest := by
  cases h with
  | selfClosing hread hclosed =>
    rw [hadmits.readFrom_opening hread, Progress.opened, if_pos hclosed]
    rfl
  | @fragment _ _ _ opening content hread hclosed htag hcontent =>
    rw [hadmits.readFrom_opening hread, Progress.opened, hclosed, if_neg Bool.false_ne_true,
      hcontent.readFrom, Scan.readFrom_of_contentStep rfl (.fragmentEnd htag)]
    exact congrArg (Scan.readFrom · rest) (p.ended_filled opening content none)
  | @paired _ _ _ _ opening content closing hread hclosed htag hcontent hending =>
    rw [hadmits.readFrom_opening hread, Progress.opened, hclosed, if_neg Bool.false_ne_true,
      hcontent.readFrom, Scan.readFrom_of_contentStep rfl (.elementEnd htag hending)]
    exact congrArg (Scan.readFrom · rest) (p.ended_filled opening content (some closing))

/-- Over the text of children, a scan fills the innermost element. -/
theorem ParsesContent.readFrom {cs rest : List Char} {content : List ParseNode}
    (h : ParsesContent cs content rest) (f : Frame) (outer : List Frame) (segments : List Segment)
    (closed : List ClosedTag) :
    Scan.readFrom ⟨f :: outer, segments, closed⟩ cs =
      Scan.readFrom ⟨f.filled content :: outer, segments,
        (ParseTree.closedTags (ParseNode.postorderAll content)).reverse ++ closed⟩ rest := by
  cases h with
  | nil => rfl
  | @tree _ _ _ t content hslash helement hmore =>
    rw [helement.readFrom ⟨f :: outer, segments, closed⟩ (Progress.admits_of_frames rfl hslash),
      Progress.finished, Progress.attach, hmore.readFrom, Frame.filled_cons (n := .tree t) f rfl,
      ParseNode.postorderAll, ParseTree.closedTags_append, List.reverse_append, List.append_assoc]
  | text hne hall hstop hmore =>
    rw [Scan.readFrom_of_contentStep rfl (.text hne hall hstop), Progress.pushed, hmore.readFrom,
      Frame.filled_cons (n := .text _) f rfl]
    rfl
  | expression hread hmore =>
    rw [Scan.readFrom_of_contentStep rfl (.expression hread), Progress.pushed, hmore.readFrom,
      Frame.filled_cons (n := .expression _) f rfl]
    rfl
end

/-! ### A tree takes a beginning of its text -/

mutual
theorem ParsesElement.exists_used {cs rest : List Char} {t : ParseTree}
    (h : ParsesElement cs t rest) : ∃ c used, cs = c :: (used ++ rest) := by
  cases h with
  | selfClosing hread hclosed =>
    obtain ⟨used, rfl, _⟩ := locally_readOpening hread
    exact ⟨'<', used, rfl⟩
  | fragment hread hclosed htag hcontent =>
    obtain ⟨used, rfl, _⟩ := locally_readOpening hread
    obtain ⟨inside, rfl⟩ := hcontent.exists_used
    exact ⟨'<', used ++ (inside ++ ['<', '/', '>']), by simp⟩
  | paired hread hclosed htag hcontent hending =>
    obtain ⟨used, rfl, _⟩ := locally_readOpening hread
    obtain ⟨inside, rfl⟩ := hcontent.exists_used
    obtain ⟨tag, rfl, _⟩ := exists_readClosing hending
    exact ⟨'<', used ++ (inside ++ '<' :: '/' :: tag), by simp⟩

theorem ParsesContent.exists_used {cs rest : List Char} {content : List ParseNode}
    (h : ParsesContent cs content rest) : ∃ used, cs = used ++ rest := by
  cases h with
  | nil => exact ⟨[], rfl⟩
  | tree hslash helement hmore =>
    obtain ⟨c, used, hcs⟩ := helement.exists_used
    obtain ⟨more, rfl⟩ := hmore.exists_used
    exact ⟨c :: (used ++ more), by rw [hcs, List.cons_append, List.append_assoc]⟩
  | @text value _ _ _ hne hall hstop hmore =>
    obtain ⟨more, rfl⟩ := hmore.exists_used
    exact ⟨value ++ more, by rw [List.append_assoc]⟩
  | expression hread hmore =>
    obtain ⟨used, rfl, _⟩ := locally_readExpression? hread
    obtain ⟨more, rfl⟩ := hmore.exists_used
    exact ⟨'\x7b' :: (used ++ more), by rw [List.cons_append, List.append_assoc]⟩
end

namespace Scan

variable {p : Progress} {cs after : List Char} {scan : Scan}

end Scan

/-- Over a module, a scan adds its segments and the closing tags in it, and succeeds. -/
theorem ParsesModule.readFrom {cs : List Char} {segments : List ParseSegment}
    (h : ParsesModule cs segments) (before : List Segment) (closed : List ClosedTag) :
    Scan.readFrom ⟨[], before, closed⟩ cs =
      .ok ⟨⟨before.reverse ++ segments.map ParseSegment.segment⟩,
        closed.reverse ++ ParseTree.closedTags (ParseSegment.postorderAll segments)⟩ := by
  induction h generalizing before closed with
  | nil =>
    have hnone : ParseTree.closedTags (ParseSegment.postorderAll []) = [] := rfl
    rw [Scan.readFrom_nil rfl, Scan.ofProgress, List.map_nil, List.append_nil, hnone,
      List.append_nil]
  | code hne hopen hmore ih =>
    rw [Scan.readFrom_of_step hne (Progress.step_code rfl hopen), ih, List.reverse_cons,
      List.append_assoc]
    rfl
  | markup hopen helement hmore ih =>
    obtain ⟨_, cs, rfl, _⟩ := Progress.exists_of_opensMarkup hopen
    rw [helement.readFrom _ (Progress.admits_of_root rfl hopen), Progress.finished,
      Progress.attach, ih, ParseSegment.postorderAll_markup, ParseTree.closedTags_append,
      List.reverse_cons, List.reverse_append, List.reverse_reverse, List.append_assoc,
      List.append_assoc]
    rfl

end MarkupTidy
