import MarkupTidy.Proofs.Sheet.Declarations

/-! # Comments, imports and rules that are read back

The reader removes comments first and import directives next; what is left it reads as rules, each of
them with all that stands before it since the last one.

* `leaves_line`, `leaves_commentLine`: what is left of a line without its comment.
* `IsDirective`: a text that is read as one import directive.
* `IsRuleText`, `readRule?_of_isRuleText`: the text of a rule is read as the rule.
* `FindsRules`: what is read as rules, with blanks between them. -/

namespace MarkupTidy.Sheet

open MarkupTidy.Text MarkupTidy.Markup

/-! ### Comments -/

theorem readComment?_cons_eq_none {c : Char} {rest : List Char}
    (h : c = '/' → rest.head? ≠ some '*') : readComment? (c :: rest) = none := by
  unfold readComment?
  split
  · rename_i after heq
    obtain ⟨rfl, rfl⟩ := List.cons.inj heq
    exact absurd rfl (h rfl)
  · rfl

/-- A line without stars holds no comment. -/
theorem leaves_line {x : List Char} (h : '*' ∉ x) :
    Leaves readComment? (x ++ ['\n']) (x ++ ['\n']) := by
  refine leaves_of_passes fun y front c back heq => readComment?_cons_eq_none fun hc => ?_
  cases back with
  | nil =>
    have hlast : '\n' = c := by simpa using congrArg List.getLast? heq
    rw [hc] at hlast
    exact absurd hlast (by decide)
  | cons d back =>
    have hd : d ∈ x ++ ['\n'] := by
      rw [heq]
      simp
    rw [List.cons_append, List.head?_cons, Ne, Option.some.injEq]
    rintro rfl
    obtain hd | hd := List.mem_append.1 hd
    · exact h hd
    · exact absurd hd (by decide)

theorem afterFirst?_append {comment : List Char} (h : '*' ∉ comment) (y : List Char) :
    afterFirst? ['*', '/'] (comment ++ '*' :: '/' :: y) = some y := by
  induction comment with
  | nil => rfl
  | cons c comment ih =>
    rw [List.mem_cons, not_or] at h
    rw [List.cons_append, afterFirst?, afterText?, if_neg h.1]
    exact ih h.2

/-- A comment is removed. -/
theorem leaves_comment {comment : List Char} (h : '*' ∉ comment) :
    Leaves readComment? ('/' :: '*' :: (comment ++ ['*', '/'])) [] := by
  have hread : ∀ y, readComment? ('/' :: '*' :: (comment ++ ['*', '/']) ++ y) = some ((), y) := by
    intro y
    have := afterFirst?_append h y
    simp only [List.cons_append, List.append_assoc, readComment?]
    rw [List.nil_append, this]
    rfl
  exact leaves_of_read hread (List.cons_ne_nil _ _)

/-- Of a line with a comment the blanks before it are left. -/
theorem leaves_commentLine {indent comment : List Char} (hindent : ∀ c ∈ indent, c = ' ')
    (h : '*' ∉ comment) :
    Leaves readComment? (indent ++ '/' :: '*' :: (comment ++ ['*', '/']) ++ ['\n'])
      (indent ++ ['\n']) := by
  have hspaces : Leaves readComment? indent indent :=
    leaves_of_passes fun y => passes_of_forall (fun c hc rest => by
      rw [hindent c hc]
      exact readComment?_cons_eq_none fun he => absurd he (by decide)) y
  have hend : Leaves readComment? ['\n'] ['\n'] := leaves_line List.not_mem_nil
  simpa using (hspaces.append (leaves_comment h)).append hend

/-! ### Imports -/

/-- A text that is read as an import directive, whatever follows it. -/
structure IsDirective (directive : List Char) : Prop where
  ne_nil : directive ≠ []
  star : '*' ∉ directive
  read : ∀ y, readImport? (directive ++ y) = some (String.ofList directive, y)

theorem readImport?_newline (rest : List Char) : readImport? ('\n' :: rest) = none := by
  rfl

theorem finds_newline : Finds readImport? ['\n'] [] :=
  finds_of_passes fun y => passes_of_forall (fun c hc rest => by
    rw [List.mem_singleton.1 hc]
    exact readImport?_newline rest) y

theorem leaves_newline : Leaves readImport? ['\n'] ['\n'] :=
  leaves_of_passes fun y => passes_of_forall (fun c hc rest => by
    rw [List.mem_singleton.1 hc]
    exact readImport?_newline rest) y

/-- Import directives on lines of their own are found, and the ends of the lines are left. -/
theorem finds_directives {directives : List String} (h : ∀ d ∈ directives, IsDirective d.toList) :
    Finds readImport? (directives.flatMap fun d => d.toList ++ ['\n']) directives ∧
      Leaves readImport? (directives.flatMap fun d => d.toList ++ ['\n'])
        (directives.flatMap fun _ => ['\n']) := by
  have hfinds : ∀ d ∈ directives, Finds readImport? (d.toList ++ ['\n']) [d] := by
    intro d hd
    have := (finds_of_read (h d hd).read (h d hd).ne_nil).append finds_newline
    rwa [String.ofList_toList, List.append_nil] at this
  have hleaves : ∀ d ∈ directives, Leaves readImport? (d.toList ++ ['\n']) ['\n'] := fun d hd =>
    (leaves_of_read (h d hd).read (h d hd).ne_nil).append leaves_newline
  refine ⟨?_, Leaves.flatMap hleaves⟩
  have := Finds.flatMap hfinds
  rwa [List.flatMap_singleton'] at this

/-! ### Rules -/

/-- The text of a rule: a selector and a body of its declarations in braces. -/
def IsRuleText (r : Rule) (text : List Char) : Prop :=
  ∃ body, text = r.selector.toList ++ (" \x7b".toList ++ (body ++ ['\x7d'])) ∧
    Finds readDeclaration? body r.declarations ∧ '\x7d' ∉ body

/-- A rule that is read as itself: no braces and no blanks at the ends of its selector, and each
property once. -/
structure IsRule (r : Rule) : Prop where
  selector : ∀ c ∈ r.selector.toList, c ∉ ['\x7b', '\x7d']
  trim : trim r.selector.toList = r.selector.toList
  nodup : r.declarations.keys.Nodup

/-- The text of a rule behind blanks is read as the rule. -/
theorem readRule?_of_isRuleText {r : Rule} (hr : IsRule r) {text : List Char}
    (htext : IsRuleText r text) {pre : List Char} (hpre : ∀ c ∈ pre, isBlank c = true)
    (y : List Char) : readRule? (pre ++ text ++ y) = some (r, y) := by
  obtain ⟨body, rfl, hfinds, hbody⟩ := htext
  have hsplit : pre ++ (r.selector.toList ++ (" \x7b".toList ++ (body ++ ['\x7d']))) ++ y
      = (pre ++ r.selector.toList ++ [' ']) ++ '\x7b' :: (body ++ '\x7d' :: y) := by
    simp
  have hbrace : ∀ c, isBlank c = true → c ∉ ['\x7b', '\x7d'] := by
    intro c hc hmem
    simp only [List.mem_cons, List.not_mem_nil, or_false] at hmem
    obtain rfl | rfl := hmem <;> exact absurd hc (by decide)
  have hselector : ∀ c ∈ pre ++ r.selector.toList ++ [' '], c ∉ ['\x7b', '\x7d'] := by
    intro c hc
    obtain hc | hc := List.mem_append.1 hc
    · exact (List.mem_append.1 hc).elim (fun hc => hbrace c (hpre c hc)) (hr.selector c)
    · exact hbrace c (by
        rw [List.mem_singleton.1 hc]
        decide)
  have hin : ∀ c ∈ pre ++ r.selector.toList ++ [' '],
      (decide (c ≠ '\x7b') && decide (c ≠ '\x7d')) = true := by
    intro c hc
    simpa using hselector c hc
  have hstop : Stops (fun c => decide (c ≠ '\x7b') && decide (c ≠ '\x7d'))
      ('\x7b' :: (body ++ '\x7d' :: y)) := stops_cons (by decide)
  have htrim : trim (pre ++ r.selector.toList ++ [' ']) = r.selector.toList := by
    rw [trim_append_right (by decide), trim_append_left hpre, hr.trim]
  have hdeclarations : readDeclarations body = r.declarations := by
    rw [readDeclarations, hfinds.findAll_eq, OrderedMap.ofEntries_eq_self hr.nodup]
  unfold readRule?
  dsimp only
  rw [hsplit, takeWhile_append_of_stops hin hstop, dropWhile_append_of_stops hin hstop,
    afterText?_eq_some.2 (List.singleton_append).symm, Option.bind_some,
    cutAt?_append_cons hbody]
  dsimp only
  rw [if_neg (by simp), htrim, hdeclarations, String.ofList_toList]

/-- A text is read as rules, also behind blanks, and blanks may be left at its end. -/
def FindsRules (x : List Char) (rules : List Rule) : Prop :=
  ∀ pre y, (∀ c ∈ pre, isBlank c = true) → ∃ post, (∀ c ∈ post, isBlank c = true) ∧
    findAll readRule? (pre ++ (x ++ y)) = rules ++ findAll readRule? (post ++ y)

theorem FindsRules.append {x x' : List Char} {rules rules' : List Rule} (h : FindsRules x rules)
    (h' : FindsRules x' rules') : FindsRules (x ++ x') (rules ++ rules') := by
  intro pre y hpre
  obtain ⟨between, hbetween, heq⟩ := h pre (x' ++ y) hpre
  obtain ⟨post, hpost, heq'⟩ := h' between y hbetween
  refine ⟨post, hpost, ?_⟩
  rw [List.append_assoc, heq, heq', List.append_assoc]

theorem findsRules_of_blank {x : List Char} (h : ∀ c ∈ x, isBlank c = true) : FindsRules x [] := by
  intro pre y hpre
  exact ⟨pre ++ x, List.forall_mem_append.2 ⟨hpre, h⟩, by simp⟩

theorem findsRules_of_isRuleText {r : Rule} (hr : IsRule r) {text : List Char}
    (htext : IsRuleText r text) : FindsRules text [r] := by
  intro pre y hpre
  refine ⟨[], List.forall_mem_nil _, ?_⟩
  have hread : ∀ y, readRule? (pre ++ text ++ y) = some (r, y) :=
    readRule?_of_isRuleText hr htext hpre
  have hne : pre ++ text ≠ [] := by
    obtain ⟨body, rfl, -⟩ := htext
    simp
  rw [← List.append_assoc, finds_of_read hread hne, List.nil_append]

theorem FindsRules.flatMap {β : Type} {items : List β} {text : β → List Char}
    {rules : β → List Rule} (h : ∀ item ∈ items, FindsRules (text item) (rules item)) :
    FindsRules (items.flatMap text) (items.flatMap rules) := by
  induction items with
  | nil => exact findsRules_of_blank (List.forall_mem_nil _)
  | cons item items ih =>
    obtain ⟨hitem, hitems⟩ := List.forall_mem_cons.1 h
    rw [List.flatMap_cons, List.flatMap_cons]
    exact hitem.append (ih hitems)

/-- No rule is read from blanks. -/
theorem findAll_readRule?_of_blank {x : List Char} (h : ∀ c ∈ x, isBlank c = true) :
    findAll readRule? x = [] := by
  refine findAll_eq_nil_of_passes fun front c back heq => ?_
  have hin : ∀ d ∈ c :: (back ++ []), (decide (d ≠ '\x7b') && decide (d ≠ '\x7d')) = true := by
    intro d hd
    have hblank := h d (by
      rw [heq]
      rw [List.append_nil] at hd
      exact List.mem_append_right _ hd)
    have hopen : d ≠ '\x7b' := by
      rintro rfl
      exact absurd hblank (by decide)
    have hclose : d ≠ '\x7d' := by
      rintro rfl
      exact absurd hblank (by decide)
    simp [hopen, hclose]
  have hdrop : (c :: (back ++ [])).dropWhile
      (fun d => decide (d ≠ '\x7b') && decide (d ≠ '\x7d')) = [] := by
    have := dropWhile_append_of_stops hin stops_nil
    rwa [List.append_nil] at this
  unfold readRule?
  dsimp only
  rw [hdrop]
  rfl

theorem FindsRules.findAll_eq {x : List Char} {rules : List Rule} (h : FindsRules x rules) :
    findAll readRule? x = rules := by
  obtain ⟨post, hpost, heq⟩ := h [] [] (List.forall_mem_nil _)
  rw [List.append_nil, List.append_nil, findAll_readRule?_of_blank hpost, List.append_nil] at heq
  exact heq

end MarkupTidy.Sheet
