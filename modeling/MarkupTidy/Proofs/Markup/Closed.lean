import MarkupTidy.Proofs.Markup.Passage

/-! # Source that ends where it ends

An expression may leave a literal, a comment or a bracket open, which a later text on its line then
closes.  A closed source leaves nothing open: it is read back in front of every text.

* `IsClosed`: what is asked of the source of an expression; `IsClosedFrom`: the same of what is left of
  it at a place inside, with one lemma for each thing that may stand at its front.
* `IsPassedOver`: a text that a reader inside an expression gets over at any depth, whatever
  follows; `IsPassedOver.append`, `IsPassedOver.cons` put such texts together.
* `isClosed_iff_isPassedOver`: the two are the same. -/

namespace MarkupTidy.Markup

open MarkupTidy.Text

/-- The source of an expression is read back in front of every text. -/
def IsClosed (source : List Char) : Prop :=
  ∀ following, readExpression? (source ++ '\x7d' :: following) = some (source, following)

/-- A character that makes a comment begin behind a slash. -/
def isCommentMark (c : Char) : Bool :=
  c == '/' || c == '*'

/-- A reader inside an expression gets over the text and is left at the same depth, unless a comment
begins at its end. -/
def IsPassedOver (cs : List Char) : Prop :=
  ∀ depth before following, Verbatim.forbidsLineComment before = false →
    Stops isCommentMark following →
    readExpressionFrom depth before (cs ++ following) =
      (readExpressionFrom depth none following).map fun (source, rest) => (cs ++ source, rest)

/-! ### The character before a text -/

theorem Verbatim.read?_eq_of_forbids {before before' : Option Char}
    (h : forbidsLineComment before = forbidsLineComment before') (cs : List Char) :
    read? before cs = read? before' cs := by
  unfold read?
  split
  · rfl
  · rw [h]
  · rfl
  · rfl

theorem Verbatim.read?_eq_of_stops (before before' : Option Char) {cs : List Char}
    (h : Stops isCommentMark cs) : read? before cs = read? before' cs := by
  unfold read?
  split
  · exact absurd (h _ rfl) (by decide)
  · exact absurd (h _ rfl) (by decide)
  · rfl
  · rfl

theorem readExpressionFrom_eq_of_read? {depth : Nat} {before before' : Option Char}
    {cs : List Char} (h : Verbatim.read? before cs = Verbatim.read? before' cs) :
    readExpressionFrom depth before cs = readExpressionFrom depth before' cs := by
  cases cs with
  | nil => rw [readExpressionFrom.eq_def, readExpressionFrom.eq_def]
  | cons c tail =>
    cases hread : Verbatim.read? before (c :: tail) with
    | none => rw [readExpressionFrom_plain hread, readExpressionFrom_plain (h.symm.trans hread)]
    | some found =>
      obtain ⟨passage, after⟩ := found
      rw [readExpressionFrom_verbatim hread, readExpressionFrom_verbatim (h.symm.trans hread)]

/-! ### Literals and comments that are left open -/

namespace Verbatim

/-- A slash alone begins no comment. -/
theorem read?_eq_none_of_slash {before : Option Char} {c : Char} {tail : List Char}
    (h : isCommentMark c = false) : read? before ('/' :: c :: tail) = none := by
  simp only [isCommentMark, Bool.or_eq_false_iff, beq_eq_false_iff_ne] at h
  unfold read?
  split
  · rename_i heq
    simp only [List.cons.injEq] at heq
    exact absurd heq.2.1 h.2
  · rename_i heq
    simp only [List.cons.injEq] at heq
    exact absurd heq.2.1 h.1
  · rename_i heq
    rw [List.cons.injEq] at heq
    rw [← heq.1]
    rfl
  · rfl

/-- A comment that is left open is ended by the next mark that ends comments. -/
theorem commentRest?_end {cs : List Char} (h : commentRest? cs = none) :
    commentRest? (cs ++ ['*', '/']) = some (cs ++ ['*', '/'], []) := by
  fun_induction commentRest? cs with
  | case1 => rfl
  | case2 => simp at h
  | case3 c tail hne ih =>
    rw [Option.map_eq_none_iff] at h
    rw [List.cons_append, commentRest?, ih h]
    · rfl
    · rintro after rfl heq
      cases tail with
      | nil => simp at heq
      | cons d tail =>
        rw [List.cons_append, List.cons.injEq] at heq
        exact hne tail rfl (by rw [heq.1])

/-- A literal that a brace does not end, and that another text would end, is ended by its quote. -/
theorem literalRest?_end {quote : Char} {severalLines : Bool} {cs following : List Char}
    {found : List Char × List Char} (hslash : quote ≠ '\\') (hbrace : quote ≠ '\x7d')
    (h : literalRest? quote severalLines (cs ++ ['\x7d']) = none)
    (hfollowing : literalRest? quote severalLines (cs ++ following) = some found) :
    literalRest? quote severalLines (cs ++ ['\x7d', quote]) = some (cs ++ ['\x7d', quote], []) := by
  have hquote : literalRest? quote severalLines [quote] = some ([quote], []) := by
    simp [literalRest?]
  fun_induction literalRest? quote severalLines cs generalizing found with
  | case1 => simp [literalRest?, hbrace.symm]
  | case2 c tail ih =>
    rw [List.cons_append, List.cons_append, literalRest?, Option.map_eq_none_iff] at h
    rw [List.cons_append, List.cons_append, literalRest?] at hfollowing
    obtain ⟨inner, hinner, -⟩ := Option.map_eq_some_iff.1 hfollowing
    rw [List.cons_append, List.cons_append, literalRest?, ih h hinner]
    rfl
  | case3 tail hne =>
    rw [List.cons_append, literalRest?, if_pos rfl] at h
    · exact absurd h (by simp)
    · rintro _ _ hc
      exact absurd hc hslash
  | case4 c tail hne hc hstop =>
    by_cases hbackslash : c = '\\'
    · -- the backslash is the last character: it covers the brace
      subst hbackslash
      cases tail with
      | nil => simp [literalRest?]
      | cons d tail => exact absurd rfl (hne d tail rfl)
    · rw [List.cons_append, literalRest?, if_neg hc, if_pos hstop] at hfollowing
      · exact absurd hfollowing (by simp)
      · rintro _ _ hc
        exact absurd hc hbackslash
  | case5 c tail hne hc hstop ih =>
    have hbackslash : c ≠ '\\' := by
      rintro rfl
      simp at hstop
    have hcons : ∀ more, literalRest? quote severalLines (c :: tail ++ more) =
        (literalRest? quote severalLines (tail ++ more)).map
          fun (passage, after) => (c :: passage, after) := by
      intro more
      rw [List.cons_append, literalRest?, if_neg hc, if_neg hstop]
      rintro _ _ hc
      exact absurd hc hbackslash
    rw [hcons, Option.map_eq_none_iff] at h
    rw [hcons] at hfollowing
    obtain ⟨inner, hinner, -⟩ := Option.map_eq_some_iff.1 hfollowing
    rw [hcons, ih h hinner]
    rfl

/-- What begins no literal or comment in front of a brace, but does in front of another text, is
left open: some text ends it behind the brace. -/
theorem exists_read?_end {before : Option Char} {c : Char} {tail following : List Char}
    {found : List Char × List Char} (h : read? before (c :: tail ++ ['\x7d']) = none)
    (hfollowing : read? before (c :: tail ++ following) = some found)
    (hstop : Stops isCommentMark following) :
    ∃ more, read? before (c :: tail ++ '\x7d' :: more) =
      some (c :: tail ++ '\x7d' :: more, []) := by
  by_cases hquote : Style.isQuote c = true
  · have hne : c ≠ '\\' ∧ c ≠ '\x7d' := by
      constructor <;> (rintro rfl; exact absurd hquote (by decide))
    rw [List.cons_append, read?_quote hquote, Option.map_eq_none_iff] at h
    rw [List.cons_append, read?_quote hquote] at hfollowing
    obtain ⟨inner, hinner, -⟩ := Option.map_eq_some_iff.1 hfollowing
    refine ⟨[c], ?_⟩
    rw [List.cons_append, read?_quote hquote, literalRest?_end hne.1 hne.2 h hinner]
    rfl
  have hslash : c = '/' := Decidable.byContradiction fun hne => by
    rw [List.cons_append, read?_eq_none hne (by simpa using hquote)] at hfollowing
    exact absurd hfollowing (by simp)
  subst hslash
  obtain ⟨d, rest, hd, hmark⟩ : ∃ d rest, tail ++ following = d :: rest ∧
      isCommentMark d = true := by
    cases hrest : tail ++ following with
    | nil =>
      rw [List.cons_append, hrest] at hfollowing
      exact absurd hfollowing (by simp [read?])
    | cons d rest =>
      refine ⟨d, rest, rfl, Decidable.byContradiction fun hd => ?_⟩
      rw [List.cons_append, hrest, read?_eq_none_of_slash (by simpa using hd)] at hfollowing
      exact absurd hfollowing (by simp)
  cases tail with
  | nil => exact absurd (hstop d (by rw [← List.nil_append following, hd]; rfl)) (by simp [hmark])
  | cons e tail =>
    rw [List.cons_append, List.cons.injEq] at hd
    obtain ⟨rfl, -⟩ := hd
    simp only [isCommentMark, Bool.or_eq_true, beq_iff_eq] at hmark
    obtain rfl | rfl := hmark
    · -- a comment to the end of its line is read whatever follows
      rw [List.cons_append, List.cons_append, read?] at h hfollowing
      split at h
      · rename_i hforbids
        rw [if_pos hforbids] at hfollowing
        exact absurd hfollowing (by simp)
      · exact absurd h (by simp)
    · rw [List.cons_append, List.cons_append, read?, Option.map_eq_none_iff] at h
      have hend := commentRest?_end h
      simp only [List.append_assoc, List.singleton_append] at hend
      refine ⟨['*', '/'], ?_⟩
      rw [List.cons_append, List.cons_append, read?, hend]
      rfl

end Verbatim

/-! ### Closed source -/

/-- A reader inside an expression, so many braces deep and behind this character, takes the source to
its end, whatever follows the brace that closes the expression. -/
def IsClosedFrom (depth : Nat) (before : Option Char) (source : List Char) : Prop :=
  ∀ following,
    readExpressionFrom depth before (source ++ '\x7d' :: following) = some (source, following)

section
variable {depth : Nat} {before : Option Char} {c : Char} {cs tail : List Char}

/-- What is read as a whole at the front of closed source is a part of it. -/
theorem exists_of_read? {following passage after : List Char}
    (h : readExpressionFrom depth before (cs ++ '\x7d' :: following) = some (cs, following))
    (hread : Verbatim.read? before (cs ++ '\x7d' :: following) = some (passage, after)) :
    ∃ source, cs = passage ++ source ∧ after = source ++ '\x7d' :: following ∧
      readExpressionFrom depth passage.getLast? after = some (source, following) := by
  have happ := Verbatim.append_of_read? hread
  rw [readExpressionFrom_verbatim hread] at h
  obtain ⟨⟨source, rest⟩, hsource, heq⟩ := Option.map_eq_some_iff.1 h
  obtain ⟨rfl, rfl⟩ := Prod.mk.inj heq
  refine ⟨source, rfl, ?_, hsource⟩
  rwa [List.append_assoc, List.append_cancel_left_eq] at happ

namespace IsClosedFrom

theorem eq_zero_of_nil (h : IsClosedFrom depth before []) : depth = 0 := by
  have hbrace := h []
  rw [List.nil_append, readExpressionFrom_plain
    (Verbatim.read?_eq_none (by decide) (by decide)), if_pos rfl] at hbrace
  cases depth with
  | zero => rfl
  | succ outer => simp at hbrace

/-- A literal or comment at the front of closed source is the same whatever follows the source, and
leaves closed source. -/
theorem exists_verbatim (h : IsClosedFrom depth before cs) {passage after : List Char}
    (hread : Verbatim.read? before (cs ++ ['\x7d']) = some (passage, after)) :
    ∃ source, cs = passage ++ source ∧
      (∀ rest, Verbatim.read? before (cs ++ rest) = some (passage, source ++ rest)) ∧
      IsClosedFrom depth passage.getLast? source := by
  obtain ⟨source, rfl, rfl, -⟩ := exists_of_read? (h []) hread
  have hpassage : ∀ rest, Verbatim.read? before (passage ++ source ++ rest) =
      some (passage, source ++ rest) := by
    intro rest
    rw [List.append_assoc]
    obtain hclosed | ⟨-, line, -, -, hafter⟩ := Verbatim.closed_or_line_of_read? hread
    · exact hclosed _
    · -- a comment to the end of its line ends at a line feed of the source
      refine Verbatim.read?_append hread fun d hd => ?_
      cases source with
      | nil =>
        have hfeed := stops_dropWhile (p := fun c => decide (c ≠ '\n')) line '\x7d' (by
          rw [← hafter]; rfl)
        exact absurd hfeed (by decide)
      | cons e source => exact hd
  refine ⟨source, rfl, hpassage, fun rest => ?_⟩
  obtain ⟨source', heq, hafter, hinner⟩ := exists_of_read? (h rest) (hpassage _)
  rwa [← List.append_cancel_left heq] at hinner

/-- Where no literal or comment begins in closed source, none begins whatever follows the source:
one that is left open would be ended by some text. -/
theorem read?_eq_none (h : IsClosedFrom depth before (c :: tail))
    (hnone : Verbatim.read? before (c :: tail ++ ['\x7d']) = none) {following : List Char}
    (hstop : Stops isCommentMark following) :
    Verbatim.read? before (c :: tail ++ following) = none := by
  cases hread : Verbatim.read? before (c :: tail ++ following) with
  | none => rfl
  | some found =>
    obtain ⟨more, hmore⟩ := Verbatim.exists_read?_end hnone hread hstop
    obtain ⟨source, -, hafter, -⟩ := exists_of_read? (h more) hmore
    exact absurd hafter (by simp)

/-- A closing brace in closed source closes a brace of the source. -/
theorem exists_outer (h : IsClosedFrom depth before ('\x7d' :: tail)) :
    ∃ outer, depth = outer + 1 ∧ IsClosedFrom outer (some '\x7d') tail := by
  have hbrace : ∀ rest, Verbatim.read? before ('\x7d' :: (tail ++ '\x7d' :: rest)) = none :=
    fun rest => Verbatim.read?_eq_none (by decide) (by decide)
  cases depth with
  | zero =>
    have hzero := h []
    rw [List.cons_append, readExpressionFrom_plain (hbrace []), if_pos rfl] at hzero
    simp at hzero
  | succ outer =>
    refine ⟨outer, rfl, fun rest => ?_⟩
    have houter := h rest
    rw [List.cons_append, readExpressionFrom_plain (hbrace rest), if_pos rfl] at houter
    simpa using houter

/-- Another character leaves closed source, one brace deeper if it opens a brace. -/
theorem of_cons (h : IsClosedFrom depth before (c :: tail)) (hclose : c ≠ '\x7d')
    (hread : ∀ rest, Verbatim.read? before (c :: (tail ++ '\x7d' :: rest)) = none) :
    IsClosedFrom (if c = '\x7b' then depth + 1 else depth) (some c) tail := by
  intro rest
  have houter := h rest
  rw [List.cons_append, readExpressionFrom_plain (hread rest), if_neg hclose] at houter
  simpa using houter

/-- Closed source is got over whatever follows it.  The induction is on its length: a literal or
comment at its front is a part of it, and a character that begins none never does. -/
theorem readExpressionFrom_add (h : IsClosedFrom depth before cs) (more : Nat)
    {following : List Char} (hstop : Stops isCommentMark following) :
    readExpressionFrom (depth + more) before (cs ++ following) =
      (readExpressionFrom more none following).map fun (source, rest) => (cs ++ source, rest) := by
  induction hn : cs.length using Nat.strongRecOn generalizing depth before cs with
  | ind n ih =>
    subst hn
    cases cs with
    | nil =>
      rw [h.eq_zero_of_nil, List.nil_append, Nat.zero_add,
        readExpressionFrom_eq_of_read? (Verbatim.read?_eq_of_stops _ none hstop)]
      simp
    | cons c tail =>
      cases hread : Verbatim.read? before (c :: tail ++ ['\x7d']) with
      | some found =>
        obtain ⟨passage, after⟩ := found
        obtain ⟨source, hcs, hpassage, hsource⟩ := h.exists_verbatim hread
        have hne := List.length_pos_iff.2 (Verbatim.ne_nil_of_read? hread)
        have hlt : source.length < (c :: tail).length := by
          rw [hcs, List.length_append]
          omega
        rw [readExpressionFrom_verbatim (hpassage following), ih _ hlt hsource rfl, Option.map_map,
          hcs]
        simp [Function.comp_def]
      | none =>
        have hnone : ∀ {rest}, Stops isCommentMark rest →
            Verbatim.read? before (c :: (tail ++ rest)) = none := h.read?_eq_none hread
        rw [List.cons_append, readExpressionFrom_plain (hnone hstop)]
        by_cases hclose : c = '\x7d'
        · subst hclose
          obtain ⟨outer, rfl, htail⟩ := h.exists_outer
          rw [if_pos rfl, Nat.succ_add]
          dsimp only
          rw [ih _ (by simp) htail rfl, Option.map_map]
          simp [Function.comp_def]
        · have htail := h.of_cons hclose fun _ => hnone (stops_cons (by decide))
          have hdepth : (if c = '\x7b' then depth + more + 1 else depth + more) =
              (if c = '\x7b' then depth + 1 else depth) + more := by
            split <;> omega
          rw [if_neg hclose, hdepth, ih _ (by simp) htail rfl, Option.map_map]
          simp [Function.comp_def]

end IsClosedFrom

/-- Closed source is what is got over whatever follows it. -/
theorem isClosed_iff_isPassedOver : IsClosed cs ↔ IsPassedOver cs := by
  constructor
  · intro h depth before following hbefore hstop
    have hclosed : IsClosedFrom 0 (some '\x7b') cs := h
    have hread := hclosed.readExpressionFrom_add depth hstop
    rw [Nat.zero_add] at hread
    rw [← hread]
    exact readExpressionFrom_eq_of_read? (Verbatim.read?_eq_of_forbids hbefore _)
  · intro h following
    rw [readExpression?, h 0 _ _ rfl (stops_cons (by decide)), readExpressionFrom_plain
      (Verbatim.read?_eq_none (by decide) (by decide)), if_pos rfl]
    simp

/-! ### Putting texts together -/

theorem IsPassedOver.append {x y : List Char} (hx : IsPassedOver x) (hy : IsPassedOver y)
    (hstop : Stops isCommentMark y) : IsPassedOver (x ++ y) := by
  intro depth before following hbefore hfollowing
  rw [List.append_assoc, hx depth before _ hbefore (hstop.append hfollowing),
    hy depth none _ rfl hfollowing, Option.map_map]
  simp [Function.comp_def]

/-- A character that a reader inside an expression neither passes over nor counts. -/
def IsPlainChar (c : Char) : Prop :=
  c ≠ '"' ∧ c ≠ '\'' ∧ c ≠ '\x60' ∧ c ≠ '/' ∧ c ≠ '\x7b' ∧ c ≠ '\x7d'

instance (c : Char) : Decidable (IsPlainChar c) :=
  inferInstanceAs (Decidable (_ ∧ _))

/-- A character of a class is plain if the class holds no quote, slash or brace. -/
theorem IsPlainChar.of_class {p : Char → Bool} {c : Char} (hc : p c = true)
    (h : ∀ d ∈ ['"', '\'', '\x60', '/', '\x7b', '\x7d'], p d = false) : IsPlainChar c := by
  have hne : ∀ d ∈ ['"', '\'', '\x60', '/', '\x7b', '\x7d'], c ≠ d := by
    rintro d hd rfl
    exact Bool.noConfusion (hc.symm.trans (h c hd))
  simpa [IsPlainChar] using hne

theorem IsPlainChar.read?_eq_none {c : Char} (h : IsPlainChar c) (before : Option Char)
    (tail : List Char) : Verbatim.read? before (c :: tail) = none := by
  obtain ⟨hdouble, hsingle, htick, hslash, -, -⟩ := h
  exact Verbatim.read?_eq_none hslash (by simp [Style.isQuote, hdouble, hsingle, htick])

theorem IsPlainChar.readExpressionFrom_cons {c : Char} (h : IsPlainChar c) (depth : Nat)
    (before : Option Char) (tail : List Char) : readExpressionFrom depth before (c :: tail) =
      (readExpressionFrom depth (some c) tail).map fun (source, rest) => (c :: source, rest) := by
  rw [readExpressionFrom_plain (h.read?_eq_none before tail), if_neg h.2.2.2.2.2,
    if_neg h.2.2.2.2.1]

/-- A plain character, behind which a comment may begin, in front of a text that is got over. -/
theorem IsPassedOver.cons {c : Char} (hc : IsPlainChar c)
    (hbefore : Verbatim.forbidsLineComment (some c) = false) (h : IsPassedOver cs) :
    IsPassedOver (c :: cs) := by
  intro depth before following _ hstop
  rw [List.cons_append, hc.readExpressionFrom_cons, h depth _ _ hbefore hstop, Option.map_map]
  simp [Function.comp_def]

/-- Plain characters are got over, whatever stands before them. -/
theorem isPassedOver_of_plain (h : ∀ c ∈ cs, IsPlainChar c) : IsPassedOver cs := by
  intro depth before following hbefore hstop
  clear hbefore
  induction cs generalizing before with
  | nil =>
    rw [List.nil_append,
      readExpressionFrom_eq_of_read? (Verbatim.read?_eq_of_stops before none hstop)]
    simp
  | cons c tail ih =>
    obtain ⟨hc, htail⟩ := List.forall_mem_cons.1 h
    rw [List.cons_append, hc.readExpressionFrom_cons, ih htail, Option.map_map]
    simp [Function.comp_def]

/-- Braces around a text that is got over. -/
theorem IsPassedOver.braced (h : IsPassedOver cs) : IsPassedOver ('\x7b' :: (cs ++ ['\x7d'])) := by
  intro depth before following _ hstop
  have hbrace : ∀ (c : Char) b rest, c = '\x7b' ∨ c = '\x7d' →
      Verbatim.read? b (c :: rest) = none := by
    rintro c b rest (rfl | rfl)
    · exact Verbatim.read?_eq_none (by decide) (by decide)
    · exact Verbatim.read?_eq_none (by decide) (by decide)
  have hafter : readExpressionFrom depth (some '\x7d') following =
      readExpressionFrom depth none following :=
    readExpressionFrom_eq_of_read? (Verbatim.read?_eq_of_stops _ _ hstop)
  rw [List.cons_append, List.append_assoc, List.singleton_append,
    readExpressionFrom_plain (hbrace _ _ _ (Or.inl rfl)), if_neg (by decide), if_pos rfl,
    h _ _ _ rfl (stops_cons (by decide)), readExpressionFrom_plain (hbrace _ _ _ (Or.inr rfl)),
    if_pos rfl]
  dsimp only
  rw [hafter, Option.map_map, Option.map_map]
  simp [Function.comp_def]

end

end MarkupTidy.Markup
