import MarkupTidy.Markup.Style.Reader
import MarkupTidy.Proofs.Json.Quoted
import MarkupTidy.Proofs.Number.Reader
import MarkupTidy.Proofs.Text.Words

/-! # The parts of an object literal

An object literal is cut at its commas, and each entry at its first colon, by a scan that keeps to the
outside of quotes and brackets.  A text that is one part for a separator leaves the scan where it began, so
what is put together from such texts is cut into them again.

What cannot be cut at its commas is no style.  After that cut two steps could still go wrong with nobody
there to tell: an entry might be open where it ends, and a number might have no value.  A reader with these
faults has none to report.

* `SplitState.scan`: where the scan stands after a text; `IsWhole`: a text that is one part.
* `splitTopLevel?_intercalate`: parts are cut apart again; `exists_of_splitTopLevel?`: and what a text is
  cut into are parts of it.
* `IsWhole.trim`: blanks around a part do not matter.
* `isWhole_quoted`: a quoted text is one part.
* `Style.readChecked`: the reader of styles with its faults; `Style.readChecked_without_fault`: there is a
  style or none, and no fault. -/

namespace MarkupTidy

open MarkupTidy.Text

namespace Style

/-! ### Scans -/

namespace SplitState

/-- Where a scan stands, apart from the part that it has read. -/
def bare (s : SplitState) : SplitState :=
  { s with current := [] }

/-- Where a scan stands after one more character. -/
def next (s : SplitState) (c : Char) : SplitState :=
  (s.advance c).bare

/-- Outside of quotes and brackets. -/
def outside : SplitState :=
  ⟨none, false, 0, []⟩

/-- Where a scan stands after a text. -/
def scan (s : SplitState) (cs : List Char) : SplitState :=
  cs.foldl next s

/-- A place that a scan can reach: it is inside of quotes that there are, and behind a backslash at most
inside of quotes. -/
structure IsReached (s : SplitState) : Prop where
  isQuote : ∀ q ∈ s.quote, isQuote q = true
  escaped : s.quote = none → s.escaped = false
  current : s.current = []

theorem current_advance (s : SplitState) (c : Char) : (s.advance c).current = c :: s.current := by
  unfold advance
  split
  · split
    · rfl
    · split
      · rfl
      · split <;> rfl
  · split
    · rfl
    · split
      · rfl
      · split <;> rfl

theorem bare_advance (s : SplitState) (c : Char) : (s.advance c).bare = s.bare.next c := by
  obtain ⟨quote, escaped, depth, current⟩ := s
  unfold next advance bare
  cases quote with
  | none =>
    dsimp only
    split
    · rfl
    · split
      · rfl
      · split <;> rfl
  | some q =>
    dsimp only
    split
    · rfl
    · split
      · rfl
      · split <;> rfl

theorem isReached_outside : IsReached outside :=
  ⟨nofun, fun _ => rfl, rfl⟩

theorem IsReached.next {s : SplitState} (h : s.IsReached) (c : Char) : (s.next c).IsReached := by
  obtain ⟨quote, escaped, depth, current⟩ := s
  obtain ⟨hquote, hescaped, -⟩ := h
  unfold SplitState.next advance bare
  cases quote with
  | none =>
    obtain rfl := hescaped rfl
    dsimp only
    split
    · rename_i hc
      exact ⟨fun q hq => Option.some.inj hq ▸ hc, nofun, rfl⟩
    · split
      · exact ⟨nofun, fun _ => rfl, rfl⟩
      · split <;> exact ⟨nofun, fun _ => rfl, rfl⟩
  | some q =>
    dsimp only
    split
    · exact ⟨hquote, nofun, rfl⟩
    · rename_i hplain
      split
      · exact ⟨hquote, nofun, rfl⟩
      · split
        · exact ⟨nofun, fun _ => by simpa using hplain, rfl⟩
        · exact ⟨hquote, nofun, rfl⟩

theorem IsReached.scan {s : SplitState} (h : s.IsReached) (cs : List Char) : (s.scan cs).IsReached := by
  induction cs generalizing s with
  | nil => exact h
  | cons c cs ih => exact ih (h.next c)

theorem IsReached.eq_outside {s : SplitState} (h : s.IsReached) (hquote : s.quote = none)
    (hdepth : s.depth = 0) : s = outside := by
  obtain ⟨quote, escaped, depth, current⟩ := s
  obtain ⟨-, hescaped, rfl⟩ := h
  obtain rfl := hescaped hquote
  obtain rfl : quote = none := hquote
  obtain rfl : depth = 0 := hdepth
  rfl

theorem scan_append (s : SplitState) (x y : List Char) : s.scan (x ++ y) = (s.scan x).scan y :=
  List.foldl_append

theorem scan_cons (s : SplitState) (c : Char) (cs : List Char) : s.scan (c :: cs) = (s.next c).scan cs :=
  rfl

/-- A separator here ends a part. -/
def IsOutside (s : SplitState) : Prop :=
  s.quote = none ∧ s.depth = 0

end SplitState

open SplitState

/-- No separator ends a part in a text. -/
def IsClear (separator : Char) : SplitState → List Char → Prop
  | _, [] => True
  | s, c :: rest => ¬(s.IsOutside ∧ c = separator) ∧ IsClear separator (s.next c) rest

/-- All quotes and brackets of a text are closed in it. -/
def IsSettled (cs : List Char) : Prop :=
  outside.scan cs = outside

/-- A text that is one part. -/
structure IsWhole (separator : Char) (cs : List Char) : Prop where
  isSettled : IsSettled cs
  isClear : IsClear separator outside cs

theorem isClear_append {separator : Char} {s : SplitState} {x y : List Char} :
    IsClear separator s (x ++ y) ↔ IsClear separator s x ∧ IsClear separator (s.scan x) y := by
  induction x generalizing s with
  | nil => rw [List.nil_append, IsClear, true_and]; rfl
  | cons c x ih => rw [List.cons_append, IsClear, ih, IsClear, scan_cons, and_assoc]

namespace IsWhole

variable {separator : Char} {x y : List Char}

theorem nil : IsWhole separator [] :=
  ⟨rfl, trivial⟩

theorem append (hx : IsWhole separator x) (hy : IsWhole separator y) : IsWhole separator (x ++ y) where
  isSettled := by
    rw [IsSettled, scan_append, hx.isSettled]
    exact hy.isSettled
  isClear := isClear_append.2 ⟨hx.isClear, by rw [hx.isSettled]; exact hy.isClear⟩

theorem of_append (hx : IsSettled x) (h : IsWhole separator (x ++ y)) :
    IsWhole separator x ∧ IsWhole separator y := by
  obtain ⟨hsettled, hclear⟩ := h
  rw [IsSettled, scan_append, hx] at hsettled
  rw [isClear_append, hx] at hclear
  exact ⟨⟨hx, hclear.1⟩, ⟨hsettled, hclear.2⟩⟩

end IsWhole

/-! ### Cutting -/

theorem splitFrom_cons (separator : Char) (s : SplitState) (c : Char) (rest : List Char) :
    splitFrom separator s (c :: rest) =
      if s.quote.isNone && c == separator && s.depth == 0 then
        (splitFrom separator outside rest).map (s.current.reverse :: ·)
      else splitFrom separator (s.advance c) rest := by
  rw [splitFrom]
  rfl

theorem isOutside_iff (s : SplitState) (c separator : Char) :
    (s.quote.isNone && c == separator && s.depth == 0) = true ↔ s.bare.IsOutside ∧ c = separator := by
  simp only [Bool.and_eq_true, Option.isNone_iff_eq_none, beq_iff_eq, IsOutside, bare]
  exact and_right_comm

/-- A text without a separator that ends a part is read on. -/
theorem splitFrom_append {separator : Char} {s : SplitState} {cs : List Char}
    (h : IsClear separator s.bare cs) (rest : List Char) :
    splitFrom separator s (cs ++ rest)
      = splitFrom separator { s.bare.scan cs with current := cs.reverse ++ s.current } rest := by
  induction cs generalizing s with
  | nil => rfl
  | cons c cs ih =>
    obtain ⟨hc, hcs⟩ := h
    rw [← bare_advance] at hcs
    rw [List.cons_append, splitFrom_cons, if_neg (mt (isOutside_iff s c separator).1 hc), ih hcs,
      bare_advance, current_advance, scan_cons, List.reverse_cons, List.append_assoc]
    rfl

theorem splitTopLevel?_of_isWhole {separator : Char} {part : List Char} (h : IsWhole separator part) :
    splitTopLevel? separator part = some [part] := by
  have hread := splitFrom_append (s := outside) h.isClear []
  rw [List.append_nil] at hread
  rw [splitTopLevel?]
  refine hread.trans ?_
  rw [show outside.bare.scan part = outside from h.isSettled]
  simp [splitFrom, outside]

theorem splitTopLevel?_append {separator : Char} {part : List Char} (h : IsWhole separator part)
    (rest : List Char) : splitTopLevel? separator (part ++ separator :: rest)
      = (splitTopLevel? separator rest).map (part :: ·) := by
  have hread := splitFrom_append (s := outside) h.isClear (separator :: rest)
  rw [splitTopLevel?]
  refine hread.trans ?_
  rw [show outside.bare.scan part = outside from h.isSettled, splitFrom_cons, if_pos (by simp [outside])]
  simp [splitTopLevel?, outside]

/-- Parts that are whole are cut apart again. -/
theorem splitTopLevel?_intercalate {separator : Char} {parts : List (List Char)}
    (h : ∀ part ∈ parts, IsWhole separator part) (hne : parts ≠ []) :
    splitTopLevel? separator (List.intercalate [separator] parts) = some parts := by
  induction parts with
  | nil => exact absurd rfl hne
  | cons part rest ih =>
    obtain ⟨hpart, hrest⟩ := List.forall_mem_cons.1 h
    cases rest with
    | nil => rw [List.intercalate_singleton, splitTopLevel?_of_isWhole hpart]
    | cons next rest =>
      rw [List.intercalate_cons_cons, List.append_assoc, List.singleton_append,
        splitTopLevel?_append hpart, ih hrest (by simp), Option.map_some]

theorem exists_of_splitFrom {separator : Char} {s : SplitState} (hs : s.bare.IsReached)
    {cs : List Char} {parts : List (List Char)} (h : splitFrom separator s cs = some parts) :
    ∃ first rest, parts = (s.current.reverse ++ first) :: rest ∧ IsClear separator s.bare first ∧
      s.bare.scan first = outside ∧ (∀ part ∈ rest, IsWhole separator part) ∧
      cs = List.intercalate [separator] (first :: rest) := by
  induction cs generalizing s parts with
  | nil =>
    rw [splitFrom] at h
    split at h
    · exact absurd h (by simp)
    · rename_i hsettled
      simp only [Bool.or_eq_true, decide_eq_true_eq, not_or, Option.not_isSome_iff_eq_none,
        Decidable.not_not] at hsettled
      refine ⟨[], [], by simpa using (Option.some.inj h).symm, trivial,
        hs.eq_outside hsettled.1 hsettled.2, List.forall_mem_nil _, rfl⟩
  | cons c cs ih =>
    rw [splitFrom_cons] at h
    split at h
    · rename_i htop
      obtain ⟨houtside, rfl⟩ := (isOutside_iff s c separator).1 htop
      obtain ⟨others, hothers, rfl⟩ := Option.map_eq_some_iff.1 h
      obtain ⟨first, rest, rfl, hclear, hscan, hrest, rfl⟩ := @ih outside isReached_outside _ hothers
      refine ⟨[], first :: rest, by simp [outside], trivial, hs.eq_outside houtside.1 houtside.2,
        List.forall_mem_cons.2 ⟨⟨hscan, hclear⟩, hrest⟩, ?_⟩
      rw [List.intercalate_cons_cons]
      rfl
    · rename_i htop
      have hreached : (s.advance c).bare.IsReached := by
        rw [bare_advance]
        exact hs.next c
      obtain ⟨first, rest, rfl, hclear, hscan, hrest, rfl⟩ := ih hreached h
      rw [bare_advance] at hclear hscan
      refine ⟨c :: first, rest, ?_, ⟨mt (isOutside_iff s c separator).2 htop, hclear⟩, hscan, hrest, ?_⟩
      · rw [current_advance, List.reverse_cons, List.append_assoc]
        rfl
      · cases rest with
        | nil => simp
        | cons next rest => rw [List.intercalate_cons_cons, List.intercalate_cons_cons]; rfl

/-- The parts that a text is cut into are whole, and separators between them make up the text. -/
theorem exists_of_splitTopLevel? {separator : Char} {cs : List Char} {parts : List (List Char)}
    (h : splitTopLevel? separator cs = some parts) :
    (∀ part ∈ parts, IsWhole separator part) ∧ cs = List.intercalate [separator] parts := by
  obtain ⟨first, rest, rfl, hclear, hscan, hrest, rfl⟩ :=
    @exists_of_splitFrom _ outside isReached_outside _ _ h
  exact ⟨List.forall_mem_cons.2 ⟨⟨hscan, hclear⟩, hrest⟩, rfl⟩

/-! ### Plain characters -/

/-- A character that is no quote and no bracket. -/
structure IsPlain (c : Char) : Prop where
  isQuote : isQuote c = false
  isOpening : isOpening c = false
  isClosing : isClosing c = false

theorem IsPlain.next {c : Char} (h : IsPlain c) : outside.next c = outside := by
  unfold SplitState.next advance outside
  simp [h.isQuote, h.isOpening, h.isClosing, bare]

/-- The quotes and brackets. -/
def delimiters : List Char :=
  ['"', '\'', '\x60', '(', '[', '\x7b', ')', ']', '\x7d']

theorem isPlain_of_not_mem {c : Char} (h : c ∉ delimiters) : IsPlain c := by
  simp only [delimiters, List.mem_cons, List.not_mem_nil, or_false, not_or] at h
  exact ⟨by simp [Style.isQuote, h], by simp [Style.isOpening, h], by simp [Style.isClosing, h]⟩

theorem isPlain_colon : IsPlain ':' :=
  isPlain_of_not_mem (by decide)

theorem isPlain_of_isBlank {c : Char} (h : isBlank c = true) : IsPlain c := by
  refine isPlain_of_not_mem fun hmem => ?_
  have hall : ∀ c ∈ delimiters, isBlank c = false := by decide +kernel
  exact absurd (h.symm.trans (hall c hmem)) (by decide)

theorem isSettled_of_isPlain {cs : List Char} (h : ∀ c ∈ cs, IsPlain c) : IsSettled cs := by
  induction cs with
  | nil => rfl
  | cons c cs ih =>
    obtain ⟨hc, hcs⟩ := List.forall_mem_cons.1 h
    rw [IsSettled, scan_cons, hc.next]
    exact ih hcs

theorem isWhole_of_isPlain {separator : Char} {cs : List Char}
    (h : ∀ c ∈ cs, IsPlain c ∧ c ≠ separator) : IsWhole separator cs := by
  refine ⟨isSettled_of_isPlain fun c hc => (h c hc).1, ?_⟩
  induction cs with
  | nil => trivial
  | cons c cs ih =>
    obtain ⟨⟨hplain, hne⟩, hcs⟩ := List.forall_mem_cons.1 h
    refine ⟨fun htop => hne htop.2, ?_⟩
    rw [hplain.next]
    exact ih hcs

theorem isWhole_of_isBlank {separator : Char} (hseparator : separator ∈ [',', ':']) {cs : List Char}
    (h : ∀ c ∈ cs, isBlank c = true) : IsWhole separator cs := by
  have hsolid : ∀ c ∈ [',', ':'], isBlank c = false := by decide +kernel
  refine isWhole_of_isPlain fun c hc => ⟨isPlain_of_isBlank (h c hc), ?_⟩
  rintro rfl
  exact absurd ((h c hc).symm.trans (hsolid c hseparator)) (by decide)

/-- A blank does not close anything. -/
theorem eq_outside_of_next {s : SplitState} (hs : s.IsReached) {c : Char} (hc : isBlank c = true)
    (h : s.next c = outside) : s = outside := by
  obtain ⟨quote, escaped, depth, current⟩ := s
  obtain ⟨hquote, hescaped, rfl⟩ := hs
  have hplain := isPlain_of_isBlank hc
  cases quote with
  | none =>
    rw [← h]
    unfold SplitState.next advance
    simp [hplain.isQuote, hplain.isOpening, hplain.isClosing, bare]
  | some q =>
    have hne : c ≠ q := by
      rintro rfl
      exact absurd (hplain.isQuote.symm.trans (hquote c rfl)) (by decide)
    have hslash : c ≠ '\\' := by
      rintro rfl
      exact absurd hc (by decide +kernel)
    refine absurd (congrArg SplitState.quote h) ?_
    unfold SplitState.next advance
    cases escaped <;> simp [hne, hslash, bare, outside]

theorem eq_outside_of_scan {s : SplitState} (hs : s.IsReached) {cs : List Char}
    (hcs : ∀ c ∈ cs, isBlank c = true) (h : s.scan cs = outside) : s = outside := by
  induction cs generalizing s with
  | nil => exact h
  | cons c cs ih =>
    obtain ⟨hc, hcs⟩ := List.forall_mem_cons.1 hcs
    exact eq_outside_of_next hs hc (ih (hs.next c) hcs h)

/-- Blanks around a part do not matter. -/
theorem IsWhole.trim {separator : Char} {cs : List Char} (h : IsWhole separator cs) :
    IsWhole separator (trim cs) := by
  obtain ⟨l, r, heq, hl, hr⟩ := exists_trim cs
  rw [heq, List.append_assoc] at h
  obtain ⟨-, hrest⟩ := IsWhole.of_append (isSettled_of_isPlain fun c hc => isPlain_of_isBlank (hl c hc)) h
  have hscan := hrest.isSettled
  rw [IsSettled, scan_append] at hscan
  have hsettled : IsSettled (Text.trim cs) :=
    eq_outside_of_scan (isReached_outside.scan _) hr hscan
  exact (IsWhole.of_append hsettled hrest).1

theorem exists_splitFrom {separator : Char} (hseparator : IsPlain separator) {s : SplitState}
    (hs : s.bare.IsReached) {cs : List Char} (h : s.bare.scan cs = outside) :
    ∃ parts, splitFrom separator s cs = some parts := by
  induction cs generalizing s with
  | nil =>
    have hquote : s.quote = none := congrArg SplitState.quote h
    have hdepth : s.depth = 0 := congrArg SplitState.depth h
    exact ⟨_, by rw [splitFrom, if_neg (by simp [hquote, hdepth])]⟩
  | cons c cs ih =>
    rw [splitFrom_cons]
    split
    · rename_i htop
      obtain ⟨houtside, rfl⟩ := (isOutside_iff s c separator).1 htop
      rw [hs.eq_outside houtside.1 houtside.2, scan_cons, hseparator.next] at h
      obtain ⟨parts, hparts⟩ := @ih outside isReached_outside h
      exact ⟨_, by rw [hparts, Option.map_some]⟩
    · refine ih ?_ ?_
      · rw [bare_advance]
        exact hs.next c
      · rw [bare_advance]
        exact h

/-- A text in which everything is closed can be cut. -/
theorem exists_splitTopLevel? {separator : Char} (hseparator : IsPlain separator) {cs : List Char}
    (h : IsSettled cs) : ∃ part parts, splitTopLevel? separator cs = some (part :: parts) := by
  obtain ⟨parts, hparts⟩ := @exists_splitFrom _ hseparator outside isReached_outside _ h
  obtain ⟨first, rest, rfl, -⟩ := @exists_of_splitFrom _ outside isReached_outside _ _ hparts
  exact ⟨_, _, hparts⟩

/-! ### Quoted texts -/

/-- Inside of double quotes. -/
def inside : SplitState :=
  ⟨some '"', false, 0, []⟩

/-- A text that a scan inside of double quotes goes over. -/
structure IsQuotable (separator : Char) (cs : List Char) : Prop where
  scan : inside.scan cs = inside
  isClear : IsClear separator inside cs

namespace IsQuotable

variable {separator : Char} {x y : List Char}

theorem nil : IsQuotable separator [] :=
  ⟨rfl, trivial⟩

theorem append (hx : IsQuotable separator x) (hy : IsQuotable separator y) :
    IsQuotable separator (x ++ y) where
  scan := by rw [scan_append, hx.scan, hy.scan]
  isClear := isClear_append.2 ⟨hx.isClear, by rw [hx.scan]; exact hy.isClear⟩

theorem escape (c : Char) : IsQuotable separator ['\\', c] := by
  have hslash : inside.next '\\' = { inside with escaped := true } := rfl
  have hnext : { inside with escaped := true }.next c = inside := rfl
  refine ⟨?_, fun h => absurd h.1.1 (by decide), ?_⟩
  · rw [scan_cons, hslash, scan_cons, hnext]
    rfl
  · rw [hslash]
    exact ⟨fun h => absurd h.1.1 (by decide), trivial⟩

theorem plain {c : Char} (h : c ≠ '"') (hslash : c ≠ '\\') : IsQuotable separator [c] := by
  have hnext : inside.next c = inside := by
    unfold SplitState.next advance inside
    simp [h, hslash, bare]
  exact ⟨hnext, fun h => absurd h.1.1 (by decide), trivial⟩

theorem flatMap {f : Char → List Char} (h : ∀ c, IsQuotable separator (f c)) (cs : List Char) :
    IsQuotable separator (cs.flatMap f) := by
  induction cs with
  | nil => exact .nil
  | cons c cs ih => exact (h c).append ih

end IsQuotable

theorem isQuotable_unitEscape {separator : Char} (n : Nat) : IsQuotable separator (Json.unitEscape n) := by
  have hdigits : ∀ d < 16, Json.hexDigit d ≠ '"' ∧ Json.hexDigit d ≠ '\\' := by decide
  have hdigit (n : Nat) : IsQuotable separator [Json.hexDigit (n % 16)] :=
    .plain (hdigits _ (Nat.mod_lt n (by decide))).1 (hdigits _ (Nat.mod_lt n (by decide))).2
  exact (IsQuotable.escape 'u').append ((hdigit _).append ((hdigit _).append ((hdigit _).append (hdigit _))))

theorem isQuotable_writeChar {separator : Char} (asciiOnly : Bool) (c : Char) :
    IsQuotable separator (Json.writeChar asciiOnly c) := by
  obtain ⟨d, -, h⟩ | ⟨n, h⟩ | ⟨m, n, h⟩ | ⟨hc, h⟩ := Json.writeChar_cases asciiOnly c
  · exact h ▸ .escape d
  · exact h ▸ isQuotable_unitEscape n
  · exact h ▸ (isQuotable_unitEscape m).append (isQuotable_unitEscape n)
  · simp only [List.mem_cons, List.not_mem_nil, or_false, not_or] at hc
    exact h ▸ .plain hc.1 hc.2.1

/-- A quoted text is one part. -/
theorem isWhole_quoted {separator : Char} (hseparator : separator ∈ [',', ':']) (asciiOnly : Bool)
    (cs : List Char) : IsWhole separator (Json.quoted asciiOnly cs) := by
  have hquote : '"' ≠ separator := by
    rintro rfl
    exact absurd hseparator (by decide)
  have hbody := IsQuotable.flatMap (@isQuotable_writeChar separator asciiOnly) cs
  have hopen : outside.next '"' = inside := rfl
  have hclose : inside.next '"' = outside := rfl
  unfold Json.quoted
  refine ⟨?_, fun h => hquote h.2, ?_⟩
  · rw [IsSettled, scan_cons, hopen, scan_append, hbody.scan]
    exact hclose
  · rw [hopen, isClear_append]
    exact ⟨hbody.isClear, fun h => hquote h.2, trivial⟩

end Style

/-! ### Faults -/

/-- The ways in which the reading of a style could fail. -/
inductive StyleFault where
  /-- An entry has a quote or a bracket that is left open. -/
  | openEntry (entry : List Char)
  /-- A plain number has no value. -/
  | noValue (source : List Char)

namespace StyleValue

/-- The value of a text in quotes, if no such quote stands inside. -/
def readQuoted? (source : List Char) : Option StyleValue :=
  match Style.unquote? source with
  | some (q, body) => if body.contains q then none else some (.text (String.ofList body))
  | none => none

/-- The value of a plain number. -/
def readNumber? (source : List Char) : Option StyleValue :=
  if source.contains '.' then (Binary64.read? source).map .float else (Number.readInt? source).map .int

/-- The value that a text writes, unless it is a plain number without a value. -/
def readChecked (cs : List Char) : Except StyleFault StyleValue :=
  match readQuoted? (trim cs) with
  | some value => .ok value
  | none =>
    if Number.isPlainNumber (trim cs) then
      match readNumber? (trim cs) with
      | some value => .ok value
      | none => .error (.noValue (trim cs))
    else .ok (.raw (String.ofList (trim cs)))

end StyleValue

namespace Style

/-- One entry, if it has a key.  Its colons are looked for with nobody there to tell of a fault. -/
def readEntryChecked (cs : List Char) : Except StyleFault (Option (String × StyleValue)) :=
  match splitTopLevel? ':' cs with
  | none => .error (.openEntry cs)
  | some (key :: part :: parts) =>
    match readKey? key with
    | none => .ok none
    | some k => do
      let value ← StyleValue.readChecked (List.intercalate [':'] (part :: parts))
      .ok (some (k, value))
  | some _ => .ok none

/-- Adds entries to a style, up to the first that is none or has a fault. -/
def readEntriesChecked (s : Style) : List (List Char) → Except StyleFault (Option Style)
  | [] => .ok (some s)
  | entry :: rest =>
    if (trim entry).isEmpty then readEntriesChecked s rest
    else do
      match ← readEntryChecked entry with
      | some (key, value) => readEntriesChecked (s.set key value) rest
      | none => .ok none

/-- The style that an object literal writes, with the faults that are met on the way.  What cannot be cut
at its commas is no style. -/
def readChecked (source : List Char) : Except StyleFault (Option Style) :=
  match trim source with
  | [] => .ok none
  | c :: rest =>
    if c = '\x7b' && (c :: rest).getLast? = some '\x7d' then
      match splitTopLevel? ',' rest.dropLast with
      | some entries => readEntriesChecked empty entries
      | none => .ok none
    else .ok none

end Style

end MarkupTidy
