import MarkupTidy.Proofs.Markup.Closed
import MarkupTidy.Proofs.Markup.Reading

/-! # Texts that are read wherever they stand

Source whose expressions are closed falls into parts, each of which is read in front of every text
that may follow it.  What is read does not matter here, only that there is no fault.

* `IsAttributeText`: a text that is read as an attribute.
* `IsContent`: a text that is read as children; `IsContent.text`, `IsContent.expression`,
  `IsContent.element` put a child in front of such a text.
* `IsElementText`: a text that is read as an element; `isElementText_closed`,
  `isElementText_content` put one together.
* `IsCodeText`, `IsModuleText`: a text that is read as code, and as a whole module;
  `IsModuleText.exists_read`. -/

namespace MarkupTidy

open MarkupTidy.Markup MarkupTidy.Text

/-! ### Attributes -/

/-- The text is read as an attribute in front of what may stand behind one. -/
structure IsAttributeText (cs : List Char) : Prop where
  begins : ∃ c tail, cs = c :: tail ∧ isBlank c = false ∧ c ≠ '='
  reads : ∀ tail, IsBehind tail → ∃ a,
    readAttributes (' ' :: (cs ++ tail)) = (readAttributes tail).map (consAttribute a)

/-- A name with its value is an attribute if the value is read. -/
theorem isAttributeText_of_readValue {name : String} {more : List Char} (hname : IsName name)
    (h : ∀ tail, IsBehind tail → Stops isNameChar (more ++ tail) ∧
      ∃ value, readValue name (more ++ tail) = .ok (value, tail)) :
    IsAttributeText (name.toList ++ more) := by
  constructor
  · obtain ⟨c, tail, htoList, hstart, -⟩ := exists_of_isName hname
    exact ⟨c, tail ++ more, by rw [htoList, List.cons_append], isBlank_of_isNameStart hstart,
      ne_of_isNameStart hstart (by decide)⟩
  · intro tail htail
    obtain ⟨hstop, value, hvalue⟩ := h tail htail
    refine ⟨⟨name, value⟩, ?_⟩
    rw [List.append_assoc]
    exact readAttributes_attribute hname hstop hvalue

theorem isAttributeText_flag {name : String} (hname : IsName name) :
    IsAttributeText name.toList := by
  rw [← List.append_nil name.toList]
  exact isAttributeText_of_readValue hname fun tail htail =>
    ⟨htail.stops, .flag, readValue_flag htail.noValue⟩

theorem isAttributeText_text {name : String} {value : List Char} (hname : IsName name)
    (hvalue : '"' ∉ value ∨ '\'' ∉ value) :
    IsAttributeText (name.toList ++ '=' :: quotedValue value) := by
  refine isAttributeText_of_readValue hname fun tail _ =>
    ⟨stops_cons (by decide), .text (String.ofList value), ?_⟩
  have hquoted : readQuotedValue? (trimLeft (quotedValue value ++ tail)) = some (value, tail) := by
    rw [trimLeft_quotedValue]
    exact readQuotedValue?_quotedValue hvalue tail
  exact readValue_text name rfl hquoted

theorem trimLeft_braced (source rest : List Char) :
    trimLeft (braced source ++ rest) = '\x7b' :: (source ++ '\x7d' :: rest) := by
  have hstop : Stops isBlank (braced source ++ rest) := stops_cons (by decide)
  rw [trimLeft_of_stops hstop]
  simp [braced]

theorem isAttributeText_expression {name : String} {source : List Char} (hname : IsName name)
    (hsource : IsClosed source) : IsAttributeText (name.toList ++ '=' :: braced source) := by
  refine isAttributeText_of_readValue hname fun tail _ =>
    ⟨stops_cons (by decide), expressionValue name source, ?_⟩
  exact readValue_expression name rfl (trimLeft_braced source tail) (hsource tail)

theorem isAttributeText_spread {source : List Char} (hsource : IsClosed source) :
    IsAttributeText (braced source) := by
  refine ⟨⟨'\x7b', _, rfl, by decide, by decide⟩, fun tail _ =>
    ⟨⟨"", .expression (String.ofList source)⟩, readAttributes_spread ?_ (hsource tail)⟩⟩
  rw [trimLeft_space, trimLeft_braced]

/-- What ends an opening tag. -/
def tagEnd (selfClosing : Bool) : List Char :=
  if selfClosing then [' ', '/', '>'] else ['>']

/-- Attributes as they stand in a tag, with a space before each. -/
def spaced (texts : List (List Char)) : List Char :=
  texts.flatMap (' ' :: ·)

theorem spaced_cons (text : List Char) (texts : List (List Char)) :
    spaced (text :: texts) = ' ' :: (text ++ spaced texts) := rfl

theorem isBehind_tagEnd (selfClosing : Bool) (following : List Char) :
    IsBehind (tagEnd selfClosing ++ following) := by
  cases selfClosing with
  | true => exact isBehind_of_space (by decide) (by decide)
  | false =>
    have hstop : Stops isBlank (tagEnd false ++ following) := stops_cons (by decide)
    refine ⟨stops_cons (by decide), fun rest h => ?_⟩
    rw [trimLeft_of_stops hstop] at h
    exact absurd (List.cons.inj h).1 (by decide)

section
variable {texts : List (List Char)} (h : ∀ text ∈ texts, IsAttributeText text)
include h

theorem isBehind_spaced (selfClosing : Bool) (following : List Char) :
    IsBehind (spaced texts ++ (tagEnd selfClosing ++ following)) := by
  cases texts with
  | nil => exact isBehind_tagEnd selfClosing following
  | cons text rest =>
    obtain ⟨c, tail, htext, hblank, hne⟩ := (h text List.mem_cons_self).begins
    rw [spaced_cons, htext]
    exact isBehind_of_space hblank hne

theorem exists_readAttributes (selfClosing : Bool) (following : List Char) :
    ∃ as, readAttributes (spaced texts ++ (tagEnd selfClosing ++ following)) =
      .ok (as, selfClosing, following) := by
  induction texts with
  | nil =>
    cases selfClosing with
    | true => exact ⟨[], readAttributes_selfEnd rfl⟩
    | false => exact ⟨[], readAttributes_end rfl⟩
  | cons text rest ih =>
    obtain ⟨htext, hrest⟩ := List.forall_mem_cons.1 h
    obtain ⟨as, has⟩ := ih hrest
    obtain ⟨a, ha⟩ := htext.reads _ (isBehind_spaced hrest selfClosing following)
    refine ⟨a :: as, ?_⟩
    rw [spaced_cons, List.cons_append, List.append_assoc, ha, has]
    rfl

/-- An opening tag is read if its attributes are. -/
theorem Progress.reads_tag {tag : String} (htag : IsName tag) (selfClosing : Bool) {p : Progress}
    (hroot : p.frames = [] → OpensRoot tag) (rest : List Char) :
    ∃ as, p.Reads ('<' :: (tag.toList ++ (spaced texts ++ tagEnd selfClosing)) ++ rest)
      (p.opened ⟨tag, as, selfClosing⟩) rest := by
  obtain ⟨as, has⟩ := exists_readAttributes h selfClosing rest
  have hname := nameRead?_append htag (isBehind_spaced h selfClosing rest).stops
  have hopening := readOpening_named hname has
  rw [String.ofList_toList] at hopening
  obtain ⟨c, tail, htoList, hstart, -⟩ := exists_of_isName htag
  rw [htoList, List.cons_append] at hopening
  have hopens := Progress.reads_opening (ne_of_isNameStart hstart (by decide))
    (fun hframes => opensMarkup_of_opensRoot (hroot hframes) (by rw [htoList]; rfl) _) hopening
  refine ⟨as, ?_⟩
  rw [htoList]
  simpa using hopens

end

/-! ### Children -/

/-- The text is read as children in front of what ends a text. -/
def IsContent (cs : List Char) : Prop :=
  ∀ (p : Progress) (f : Frame) (rest : List Char), Stops Progress.isTextChar rest →
    ∃ ns, (p.inside f).Reads (cs ++ rest) (p.inside (f.pushAll ns)) rest

/-- The text is read as an element with a tag of the given name. -/
structure IsElementText (tag : String) (cs : List Char) : Prop where
  begins : ∃ tail, cs = '<' :: tail
  opens : OpensRoot tag → ∀ rest, opensMarkup none (cs ++ rest) = true
  reads : ∀ (p : Progress) (rest : List Char), (p.frames = [] → OpensRoot tag) →
    ∃ e, p.Reads (cs ++ rest) (p.attach e) rest

namespace IsContent

theorem nil : IsContent [] :=
  fun _ _ _ _ => ⟨[], Progress.Reads.refl _ _⟩

/-- A child in front of children. -/
theorem cons {x y : List Char} (hy : IsContent y)
    (hx : ∀ (p : Progress) (f : Frame) (rest : List Char), Stops Progress.isTextChar rest →
      ∃ n, (p.inside f).Reads (x ++ (y ++ rest)) (p.inside (f.push n)) (y ++ rest)) :
    IsContent (x ++ y) := by
  intro p f rest hstop
  obtain ⟨n, hn⟩ := hx p f rest hstop
  obtain ⟨ns, hns⟩ := hy p (f.push n) rest hstop
  refine ⟨n :: ns, ?_⟩
  rw [List.append_assoc, Frame.pushAll_cons]
  exact hn.trans hns

/-- A text in front of children that begin with no text. -/
theorem text {value y : List Char} (hne : value ≠ [])
    (hall : ∀ c ∈ value, Progress.isTextChar c = true) (hstop : Stops Progress.isTextChar y)
    (hy : IsContent y) : IsContent (value ++ y) :=
  hy.cons fun _ _ _ hrest =>
    ⟨.text (String.ofList value), Progress.reads_text value hne hall (hstop.append hrest)⟩

theorem expression {source y : List Char} (hsource : IsClosed source) (hy : IsContent y) :
    IsContent (braced source ++ y) :=
  hy.cons fun p f rest _ => by
    have hclosed := hsource (y ++ rest)
    rw [← String.toList_ofList (l := source)] at hclosed
    have hread := Progress.reads_expression (p := p) (f := f) hclosed
    rw [String.toList_ofList] at hread
    exact ⟨.expression (String.ofList source), hread⟩

theorem element {tag : String} {x y : List Char} (hx : IsElementText tag x) (hy : IsContent y) :
    IsContent (x ++ y) := by
  refine hy.cons fun p f rest _ => ?_
  obtain ⟨e, he⟩ := hx.reads (p.inside f) (y ++ rest) fun hnil =>
    absurd hnil (List.cons_ne_nil _ _)
  exact ⟨.element e, he⟩

end IsContent

/-! ### Elements -/

/-- The opening tag of an element with the given attributes as they are written. -/
def tagText (tag : String) (texts : List (List Char)) (selfClosing : Bool) : List Char :=
  if tag = "" then ['<', '>'] else '<' :: (tag.toList ++ (spaced texts ++ tagEnd selfClosing))

theorem intercalate_space (text : List Char) (texts : List (List Char)) :
    List.intercalate [' '] (text :: texts) = text ++ spaced texts := by
  induction texts generalizing text with
  | nil => simp [spaced]
  | cons next rest ih => rw [List.intercalate_cons_cons, ih, spaced_cons, List.append_assoc]; rfl

theorem openTag_eq (tag : String) (as : Attributes) (selfClosing : Bool) :
    openTag tag as selfClosing = tagText tag (as.map Attribute.print) selfClosing := by
  rw [openTag, tagText, intercalate_space, tagEnd, List.append_assoc]

theorem exists_tagText (tag : String) (texts : List (List Char)) (selfClosing : Bool) :
    ∃ tail, tagText tag texts selfClosing = '<' :: tail := by
  unfold tagText
  split
  · exact ⟨_, rfl⟩
  · exact ⟨_, rfl⟩

/-- Markup opens at an opening tag of a root element. -/
theorem opensMarkup_tagText {tag : String} (htag : tag = "" ∨ IsName tag) (hroot : OpensRoot tag)
    (texts : List (List Char)) (selfClosing : Bool) (rest : List Char) :
    opensMarkup none (tagText tag texts selfClosing ++ rest) = true := by
  obtain rfl | hname := htag
  · rfl
  · obtain ⟨c, tail, htoList, -, -⟩ := exists_of_isName hname
    rw [tagText, if_neg (ne_empty_of_isName hname), htoList]
    exact opensMarkup_of_opensRoot hroot (by rw [htoList]; rfl) _

/-- An element that closes itself. -/
theorem isElementText_closed {tag : String} (htag : IsName tag) {texts : List (List Char)}
    (h : ∀ text ∈ texts, IsAttributeText text) : IsElementText tag (tagText tag texts true) where
  begins := exists_tagText tag texts true
  opens hroot := opensMarkup_tagText (Or.inr htag) hroot texts true
  reads p rest hroot := by
    obtain ⟨as, has⟩ := Progress.reads_tag h htag true hroot rest
    refine ⟨⟨tag, as, []⟩, ?_⟩
    rw [tagText, if_neg (ne_empty_of_isName htag)]
    exact has

/-- An element around its children. -/
theorem isElementText_content {tag : String} (htag : tag = "" ∨ IsName tag)
    {texts : List (List Char)} (h : ∀ text ∈ texts, IsAttributeText text) {body : List Char}
    (hbody : IsContent body) :
    IsElementText tag (tagText tag texts false ++ (body ++ closeTag tag)) where
  begins := by
    obtain ⟨tail, htail⟩ := exists_tagText tag texts false
    exact ⟨tail ++ (body ++ closeTag tag), by rw [htail, List.cons_append]⟩
  opens hroot rest := by
    rw [List.append_assoc]
    exact opensMarkup_tagText htag hroot texts false _
  reads p rest hroot := by
    obtain ⟨as, hopened⟩ : ∃ as, p.Reads
        (tagText tag texts false ++ (body ++ (closeTag tag ++ rest)))
        (p.inside ⟨tag, as, []⟩) (body ++ (closeTag tag ++ rest)) := by
      obtain rfl | hname := htag
      · have hread : readOpening ('>' :: (body ++ (closeTag "" ++ rest))) =
            .ok (⟨"", [], false⟩, body ++ (closeTag "" ++ rest)) := rfl
        exact ⟨[], Progress.reads_opening (by decide) (fun _ => rfl) hread⟩
      · obtain ⟨as, has⟩ := Progress.reads_tag h hname false hroot (body ++ (closeTag tag ++ rest))
        refine ⟨as, ?_⟩
        rw [tagText, if_neg (ne_empty_of_isName hname)]
        exact has
    obtain ⟨ns, hread⟩ := hbody p ⟨tag, as, []⟩ (closeTag tag ++ rest) (stops_closeTag tag rest)
    have hclosed := Progress.reads_closeTag (p := p) (f := Frame.pushAll ⟨tag, as, []⟩ ns) htag rest
    refine ⟨(Frame.pushAll ⟨tag, as, []⟩ ns).close, ?_⟩
    rw [List.append_assoc, List.append_assoc]
    exact (hopened.trans hread).trans hclosed

/-! ### Modules -/

/-- Markup opens at the front of the text, unless it is empty. -/
def EndsCode (cs : List Char) : Prop :=
  cs ≠ [] → opensMarkup none cs = true

/-- The text is read as code in front of markup and at the end of a source. -/
def IsCodeText (cs : List Char) : Prop :=
  ∀ rest, EndsCode rest → readCode none (cs ++ rest) = (cs, rest)

theorem readCode_of_opensMarkup {before : Option Char} {cs : List Char}
    (h : opensMarkup before cs = true) : readCode before cs = ([], cs) := by
  obtain ⟨c, tail, rfl, -⟩ := Progress.exists_of_opensMarkup h
  have hread : Verbatim.read? before ('<' :: c :: tail) = none :=
    Verbatim.read?_eq_none (by decide) (by decide)
  unfold readCode
  split
  · rename_i hsome
    exact absurd (hread.symm.trans hsome) (by simp)
  · rw [if_pos h]

/-- Code that is read is not taken for markup. -/
theorem IsCodeText.opensMarkup_eq_false {cs rest : List Char} (h : IsCodeText cs) (hne : cs ≠ [])
    (hrest : EndsCode rest) : opensMarkup none (cs ++ rest) = false := by
  refine Bool.eq_false_iff.2 fun hopen => ?_
  have hread := h rest hrest
  rw [readCode_of_opensMarkup hopen] at hread
  exact hne (Prod.mk.inj hread).1.symm

theorem opensMarkup_of_allowed {before : Option Char} (h : forbidsMarkup before = false)
    {cs : List Char} (hopen : opensMarkup none cs = true) : opensMarkup before cs = true := by
  obtain ⟨c, tail, rfl, hc⟩ := Progress.exists_of_opensMarkup hopen
  rw [opensMarkup, hc, h]
  rfl

theorem readCode_cons {before : Option Char} {c : Char} {tail : List Char}
    (hread : Verbatim.read? before (c :: tail) = none) (hopen : c ≠ '<') :
    readCode before (c :: tail) = (c :: (readCode (some c) tail).1, (readCode (some c) tail).2) := by
  have hclosed : opensMarkup before (c :: tail) = false := by
    refine Bool.eq_false_iff.2 fun h => ?_
    obtain ⟨d, more, heq, -⟩ := Progress.exists_of_opensMarkup h
    exact hopen (List.cons.inj heq).1
  rw [readCode.eq_def]
  dsimp only
  split
  · rename_i hsome
    exact absurd (hread.symm.trans hsome) (by simp)
  · rw [hclosed, if_neg Bool.false_ne_true]

/-- Code without brackets, quotes and slashes, behind whose last character markup may open. -/
theorem isCodeText_of_plain {cs : List Char} (h : ∀ c ∈ cs, c ∉ ['<', '"', '\'', '\x60', '/'])
    (hlast : forbidsMarkup cs.getLast? = false) : IsCodeText cs := by
  intro rest hrest
  suffices ∀ before, forbidsMarkup (cs.getLast?.or before) = false →
      readCode before (cs ++ rest) = (cs, rest) from this none (by rwa [Option.or_none])
  clear hlast
  induction cs with
  | nil =>
    intro before hbefore
    by_cases hnil : rest = []
    · rw [hnil, List.nil_append, readCode]
    · exact readCode_of_opensMarkup (opensMarkup_of_allowed hbefore (hrest hnil))
  | cons c tail ih =>
    obtain ⟨hc, htail⟩ := List.forall_mem_cons.1 h
    simp only [List.mem_cons, List.not_mem_nil, or_false, not_or] at hc
    obtain ⟨hopen, hdouble, hsingle, htick, hslash⟩ := hc
    intro before hbefore
    have hread : Verbatim.read? before (c :: (tail ++ rest)) = none :=
      Verbatim.read?_eq_none hslash (by simp [Style.isQuote, hdouble, hsingle, htick])
    have hlast : forbidsMarkup (tail.getLast?.or (some c)) = false := by
      rw [List.getLast?_cons] at hbefore
      cases hlast : tail.getLast? with
      | none => simpa [hlast] using hbefore
      | some d => simpa [hlast] using hbefore
    rw [List.cons_append, readCode_cons hread hopen, ih htail _ hlast]

/-- The text is read as segments up to the end of a source. -/
def IsModuleText (cs : List Char) : Prop :=
  ∀ p : Progress, p.frames = [] → ∃ q, p.Reads cs q [] ∧ q.frames = []

namespace IsModuleText

theorem nil : IsModuleText [] :=
  fun p hframes => ⟨p, Progress.Reads.refl p [], hframes⟩

theorem code {x y : List Char} (hx : IsCodeText x) (hy : IsModuleText y)
    (hopen : EndsCode y) : IsModuleText (x ++ y) := by
  intro p hframes
  by_cases hne : x = []
  · rw [hne]
    exact hy p hframes
  · have hread : p.Reads ((String.ofList x).toList ++ y)
        { p with segments := .code (String.ofList x) :: p.segments } y :=
      Progress.reads_code hframes (by rwa [String.toList_ofList])
        (by rw [String.toList_ofList]; exact hx.opensMarkup_eq_false hne hopen)
        (by rw [String.toList_ofList]; exact hx y hopen)
    rw [String.toList_ofList] at hread
    obtain ⟨q, hq, hqframes⟩ :=
      hy { p with segments := .code (String.ofList x) :: p.segments } hframes
    exact ⟨q, hread.trans hq, hqframes⟩

theorem element {tag : String} {x y : List Char} (hx : IsElementText tag x) (hroot : OpensRoot tag)
    (hy : IsModuleText y) : IsModuleText (x ++ y) := by
  intro p hframes
  obtain ⟨e, he⟩ := hx.reads p y fun _ => hroot
  rw [Progress.attach_of_root hframes] at he
  obtain ⟨q, hq, hqframes⟩ := hy { p with segments := .markup e :: p.segments } hframes
  exact ⟨q, he.trans hq, hqframes⟩

/-- A source that is read as segments is a document. -/
theorem exists_read {cs : List Char} (h : IsModuleText cs) :
    ∃ d, Document.read (String.ofList cs) = .ok d := by
  obtain ⟨q, hq, hframes⟩ := h .start rfl
  exact ⟨_, Document.read_of_reads hq hframes⟩

end IsModuleText

end MarkupTidy
