import MarkupTidy.Pass.CssVariables
import MarkupTidy.Proofs.Pass.WrittenTokens
import MarkupTidy.Proofs.Utility.ClassRequests
import MarkupTidy.Proofs.Utility.Sweep

/-! # The sweep and the pass over a tree

Placeholders are resolved twice, in the attributes of a tree and in the class attributes of its
text.  Both resolve a token alike; they do not cut a class text into the same tokens.

* `CssVariables.run_childless`: what the pass makes of an element without children.
* `sweep_attribute`: what the sweep makes of a class attribute.
* `CssVariables.AgreesOn`: the pass and the sweep make the same of a class text, and
  `CssVariables.agreesOn_iff`: when they do. -/

namespace MarkupTidy

open MarkupTidy.Text

/-! ### One attribute -/

namespace ClassPiece

theorem split_eq_of_readAttribute?_eq_none {cs : List Char}
    (h : ∀ s, s <:+ cs → readAttribute? s = none) : split cs = cs.map other := by
  induction cs with
  | nil => rw [split, List.map_nil]
  | cons c cs ih =>
    rw [split_of_readAttribute?_eq_none (h _ (List.suffix_refl _)),
      ih fun s hs => h s (hs.trans (List.suffix_cons c cs)), List.map_cons]

/-- A class attribute of several lines is none to the sweep. -/
theorem split_text_of_line {v : List Char} (hquote : '"' ∉ v ∧ '\'' ∉ v) (hline : '\n' ∈ v) :
    split (classes '"' v).text = (classes '"' v).text.map other := by
  refine split_eq_of_readAttribute?_eq_none fun s hs =>
    Option.eq_none_iff_forall_ne_some.2 fun ⟨q, value, after⟩ hread => ?_
  obtain ⟨rfl, hq, hvalue, hlineValue⟩ := readAttribute?_eq_some_iff.1 hread
  obtain ⟨front, hfront⟩ := hs
  have hdouble : q = '"' := by
    refine hq.resolve_right fun hsingle => ?_
    have hmem : '\'' ∈ (classes '"' v).text := by
      rw [← hfront, hsingle]
      simp
    simp [text, hquote.2] at hmem
    exact absurd hmem (by decide)
  subst hdouble
  -- the text has two quotes, so the attribute is the whole of it
  have hcount := congrArg (List.count '"') hfront
  have hopening : opening.count '"' = 0 := by decide
  have hv : v.count '"' = 0 := List.count_eq_zero.2 hquote.1
  simp only [text, List.count_append, List.count_cons, List.count_nil, hopening, hv, beq_self_eq_true,
    if_true] at hcount
  have hfrontQuote : '"' ∉ front ++ opening := by
    rw [List.mem_append, not_or]
    exact ⟨List.count_eq_zero.1 (by omega), List.count_eq_zero.1 hopening⟩
  rw [text, ← List.append_assoc] at hfront
  obtain ⟨-, hrest⟩ := append_cons_inj hfrontQuote (List.count_eq_zero.1 hopening) hfront
  obtain ⟨rfl, -⟩ := append_cons_inj hvalue hquote.1 hrest
  exact hlineValue hline

end ClassPiece

theorem countPlaceholders_map_other (cs : List Char) :
    countPlaceholders (cs.map ClassPiece.other) = 0 := by
  induction cs with
  | nil => rfl
  | cons c cs ih =>
    rw [List.map_cons, countPlaceholders_cons, ih]
    rfl

/-- The value that a sweep gives a class attribute. -/
def sweptValue (design : VariableTable) (v : List Char) : List Char :=
  if placeholderCount v = 0 ∨ '\n' ∈ v then v
  else List.intercalate [' '] ((splitOn ' ' v).map (resolvedToken design))

/-- The classes that a sweep generates for a class attribute. -/
def sweptEntries (design : VariableTable) (v : List Char) : List ClassEntry :=
  if placeholderCount v = 0 ∨ '\n' ∈ v then [] else (ClassPiece.classes '"' v).entries design

/-- What the sweep makes of a class attribute. -/
theorem sweep_attribute (design : VariableTable) (table : ClassTable) {v : List Char}
    (hquote : '"' ∉ v ∧ '\'' ∉ v) :
    (sweep design table (ClassPiece.classes '"' v).text).code
        = (ClassPiece.classes '"' (sweptValue design v)).text ∧
      (sweep design table (ClassPiece.classes '"' v).text).table
        = (table.registerAll (sweptEntries design v)).1 := by
  unfold sweep sweptValue sweptEntries
  dsimp only
  by_cases hline : '\n' ∈ v
  · rw [ClassPiece.split_text_of_line hquote hline, countPlaceholders_map_other, if_pos rfl,
      if_pos (Or.inr hline), if_pos (Or.inr hline)]
    exact ⟨rfl, rfl⟩
  · have hsound : (ClassPiece.classes '"' v).IsSound := ⟨Or.inl rfl, hquote.1, hline⟩
    have hsplit : ClassPiece.split (ClassPiece.classes '"' v).text = [.classes '"' v] := by
      have := ClassPiece.split_text_append hsound []
      rwa [List.append_nil, ClassPiece.split] at this
    rw [hsplit, countPlaceholders_classes]
    by_cases hcount : placeholderCount v = 0
    · simp [hcount, ClassTable.registerAll]
    · simp [hcount, hline, ClassPiece.join, ClassPiece.resolve]

namespace CssVariables

/-! ### One element -/

variable {design : VariableTable}

theorem classes_foldl_note (st : State) (changes : List TokenChange) :
    (changes.foldl State.note st).classes
      = (st.classes.registerAll (changes.filterMap TokenChange.entry?)).1 := by
  rw [ClassTable.registerAll_fst]
  induction changes generalizing st with
  | nil => rfl
  | cons change changes ih =>
    rw [List.foldl_cons, ih, List.filterMap_cons]
    cases hentry : change.entry? <;> simp [State.note, hentry]

variable (design) in
/-- The class tokens of an element and the classes generated for them. -/
theorem classes_resolveClasses (st : State) {attributes : Attributes} {v : List Char}
    (hclass : attributes.text? classAttribute = some (String.ofList v))
    (hborder : ∀ w ∈ words v, borderClass? (String.ofList w) = none) :
    (resolveClasses design st attributes).2.classes
        = ((words v).map (resolvedToken design)).map String.ofList ∧
      (resolveClasses design st attributes).1.classes
        = (st.classes.registerAll ((words v).filterMap fun w =>
            (resolveToken? design (String.ofList w)).bind Resolution.entry?)).1 := by
  have hstatic : attributes.hasStaticClasses = true := by
    simp [Attributes.hasStaticClasses, hclass]
  have hclasses : attributes.classes = (words v).map String.ofList := by
    simp [Attributes.classes, hclass, classTokens]
  have htokens : attributes.classes.map (fun t => (TokenChange.of design t).token t)
      = ((words v).map (resolvedToken design)).map String.ofList := by
    rw [hclasses, List.map_map, List.map_map]
    exact List.map_congr_left fun w hw => (tokenChange_of (hborder w hw)).1
  have hentries : (attributes.classes.map (TokenChange.of design)).filterMap TokenChange.entry?
      = (words v).filterMap fun w =>
          (resolveToken? design (String.ofList w)).bind Resolution.entry? := by
    have hmap : (attributes.classes.map (TokenChange.of design)).map TokenChange.entry?
        = (words v).map fun w =>
            (resolveToken? design (String.ofList w)).bind Resolution.entry? := by
      rw [hclasses, List.map_map, List.map_map]
      exact List.map_congr_left fun w hw => (tokenChange_of (hborder w hw)).2
    simpa only [List.filterMap_map, Function.id_comp] using congrArg (List.filterMap id) hmap
  refine ⟨(classes_resolveClasses_eq st attributes).trans htokens, ?_⟩
  unfold resolveClasses
  rw [if_pos hstatic]
  dsimp only
  rw [classes_foldl_note, hentries]

/-- What the pass makes of an element without children. -/
theorem run_childless (c : Context) (tag : String) {attributes : Attributes} {v : List Char}
    (hclass : attributes.text? classAttribute = some (String.ofList v))
    (hborder : ∀ w ∈ words v, borderClass? (String.ofList w) = none) :
    ∃ attributes', (pass.run ⟨[.markup ⟨tag, attributes, []⟩]⟩ c).document
        = ⟨[.markup ⟨tag, attributes', []⟩]⟩ ∧
      attributes'.classes = ((words v).map (resolvedToken c.design)).map String.ofList ∧
      (pass.run ⟨[.markup ⟨tag, attributes, []⟩]⟩ c).context.classes
        = (c.classes.registerAll ((words v).filterMap fun w =>
            (resolveToken? c.design (String.ofList w)).bind Resolution.entry?)).1 := by
  obtain ⟨htokens, htable⟩ :=
    classes_resolveClasses c.design ⟨c.classes, [], []⟩ hclass hborder
  exact ⟨(visit c.design ⟨c.classes, [], []⟩ ⟨tag, attributes, []⟩).attributes, rfl,
    (classes_cleanStyle _ _).trans htokens, htable⟩

/-! ### Agreement -/

/-- Lists put together from parts that are no longer on one side than on the other are the same
only part by part. -/
theorem eq_of_flatMap_eq {α β : Type} {f g : α → List β} {xs : List α}
    (hle : ∀ x ∈ xs, (f x).length ≤ (g x).length) (h : xs.flatMap f = xs.flatMap g) :
    ∀ x ∈ xs, f x = g x := by
  have hlength : ∀ {ys : List α}, (∀ y ∈ ys, (f y).length ≤ (g y).length) →
      (ys.flatMap f).length ≤ (ys.flatMap g).length := by
    intro ys hys
    induction ys with
    | nil => exact Nat.le_refl _
    | cons y ys ih =>
      have hy := hys y List.mem_cons_self
      have hrest := ih fun z hz => hys z (List.mem_cons_of_mem y hz)
      rw [List.flatMap_cons, List.flatMap_cons, List.length_append, List.length_append]
      omega
  induction xs with
  | nil => exact List.forall_mem_nil _
  | cons x xs ih =>
    have hx := hle x List.mem_cons_self
    have hxs : ∀ y ∈ xs, (f y).length ≤ (g y).length := fun y hy => hle y (List.mem_cons_of_mem x hy)
    have hrest := hlength hxs
    have hlen := congrArg List.length h
    rw [List.flatMap_cons, List.flatMap_cons] at h
    rw [List.flatMap_cons, List.flatMap_cons, List.length_append, List.length_append] at hlen
    obtain ⟨hhead, htail⟩ := List.append_inj h (by omega)
    exact List.forall_mem_cons.2 ⟨hhead, ih hxs htail⟩

/-- A part of a class text without spaces that the sweep treats word by word. -/
def IsPartByWords (design : VariableTable) (part : List Char) : Prop :=
  IsSolid part ∨
    resolvedToken design part = part ∧ ∀ w ∈ words part, resolvedToken design w = w

instance (part : List Char) : Decidable (IsPartByWords design part) :=
  inferInstanceAs (Decidable (_ ∨ _ ∧ ∀ w ∈ words part, _))

theorem resolvedToken_nil : resolvedToken design [] = [] := by
  have hread : Placeholder.read? [] = none := rfl
  simp [resolvedToken, resolveToken?, hread]

theorem length_words_resolvedToken_le {part : List Char} (hline : '\n' ∉ part) :
    (words (resolvedToken design part)).length ≤ (words part).length := by
  obtain ⟨hkept, -⟩ | hreplaces := resolvedToken_cases design hline
  · exact Nat.le_of_eq (by rw [hkept])
  · exact hreplaces.length_words_le

/-- A part is treated word by word exactly if its words are resolved to the words of what takes its
place. -/
theorem isPartByWords_iff {part : List Char} (hline : '\n' ∉ part) :
    IsPartByWords design part ↔
      words (resolvedToken design part) = (words part).map (resolvedToken design) := by
  constructor
  · rintro (hs | ⟨hkept, hwords⟩)
    · by_cases hnil : part = []
      · rw [hnil, resolvedToken_nil]
        rfl
      · obtain ⟨hsolid, hne⟩ := isSolid_resolvedToken design hs hnil
        rw [words_of_isSolid hs hnil, words_of_isSolid hsolid hne]
        rfl
    · rw [hkept, List.map_congr_left hwords, List.map_id']
  · intro heq
    by_cases hs : IsSolid part
    · exact Or.inl hs
    · obtain ⟨hkept, -⟩ | hreplaces := resolvedToken_cases design hline
      · rw [hkept] at heq
        exact Or.inr ⟨hkept, List.map_inj_left.1 (heq.symm.trans (List.map_id' _).symm)⟩
      · exact absurd heq (hreplaces.words_ne design hs)

/-- The classes that are generated for the words of a text. -/
def wordEntries (design : VariableTable) (v : List Char) : List ClassEntry :=
  (words v).filterMap fun w => (resolveToken? design (String.ofList w)).bind Resolution.entry?

theorem wordEntries_eq_nil {v : List Char} (h : ∀ w ∈ words v, resolvedToken design w = w) :
    wordEntries design v = [] := by
  refine List.filterMap_eq_nil_iff.2 fun w hw => ?_
  have hline : '\n' ∉ w := fun hmem => absurd ((isSolid_of_mem_words hw).1 _ hmem) (by decide)
  exact entry_eq_none_of_resolvedToken_eq design hline (h w hw)

/-- A part that is treated word by word calls for the classes of its words. -/
theorem wordEntries_of_isPartByWords {part : List Char} (hline : '\n' ∉ part)
    (h : IsPartByWords design part) : wordEntries design part =
      ((resolveToken? design (String.ofList part)).bind Resolution.entry?).toList := by
  obtain hs | ⟨hkept, hwords⟩ := h
  · by_cases hnil : part = []
    · rw [hnil, entry_eq_none_of_resolvedToken_eq design List.not_mem_nil resolvedToken_nil]
      rfl
    · rw [wordEntries, words_of_isSolid hs hnil, List.filterMap_cons]
      cases (resolveToken? design (String.ofList part)).bind Resolution.entry? <;> rfl
  · rw [wordEntries_eq_nil hwords, entry_eq_none_of_resolvedToken_eq design hline hkept]
    rfl

/-- The pass over an element without children and the sweep over its class attribute leave the
same class tokens and the same generated classes. -/
def AgreesOn (c : Context) (tag : String) (attributes : Attributes) (v : List Char) : Prop :=
  ∃ v' attributes',
    (sweep c.design c.classes (ClassPiece.classes '"' v).text).code
      = (ClassPiece.classes '"' v').text ∧
    (pass.run ⟨[.markup ⟨tag, attributes, []⟩]⟩ c).document = ⟨[.markup ⟨tag, attributes', []⟩]⟩ ∧
    attributes'.classes = (words v').map String.ofList ∧
    (pass.run ⟨[.markup ⟨tag, attributes, []⟩]⟩ c).context.classes
      = (sweep c.design c.classes (ClassPiece.classes '"' v).text).table

/-- A class text that the sweep treats word by word: it holds no placeholder, or it is of several
lines and no word of it is replaced, or each part between spaces has no other blank unless neither
the part nor a word in it is replaced. -/
def IsSweptByWords (design : VariableTable) (v : List Char) : Prop :=
  (∀ w ∈ words v, Placeholder.read? w = none) ∨
    if '\n' ∈ v then ∀ w ∈ words v, resolvedToken design w = w
    else ∀ part ∈ splitOn ' ' v, IsPartByWords design part

instance (v : List Char) : Decidable (IsSweptByWords design v) :=
  inferInstanceAs (Decidable ((∀ w ∈ words v, Placeholder.read? w = none) ∨
    if '\n' ∈ v then ∀ w ∈ words v, resolvedToken design w = w
    else ∀ part ∈ splitOn ' ' v, IsPartByWords design part))

/-- A text on one line that holds a placeholder is swept to the words that its words resolve to
exactly if each part between spaces is treated word by word. -/
theorem words_sweptValue_eq_iff {v : List Char} (hcount : placeholderCount v ≠ 0)
    (hline : '\n' ∉ v) :
    words (sweptValue design v) = (words v).map (resolvedToken design) ↔
      ∀ part ∈ splitOn ' ' v, IsPartByWords design part := by
  have hpart : ∀ part ∈ splitOn ' ' v, '\n' ∉ part := fun part hpart hmem =>
    hline (mem_of_mem_splitOn hpart hmem)
  rw [sweptValue, if_neg (by simp [hcount, hline]), words_intercalate (by decide),
    List.flatMap_map, ← flatMap_words_splitOn v, List.map_flatMap]
  constructor
  · intro heq part hmem
    refine (isPartByWords_iff (hpart part hmem)).2 (eq_of_flatMap_eq (fun q hq => ?_) heq part hmem)
    rw [List.length_map]
    exact length_words_resolvedToken_le (hpart q hq)
  · intro h
    have heq : ∀ part ∈ splitOn ' ' v, words (resolvedToken design part)
        = (words part).map (resolvedToken design) := fun part hmem =>
      (isPartByWords_iff (hpart part hmem)).1 (h part hmem)
    rw [List.flatMap_def, List.flatMap_def, List.map_congr_left heq]

theorem filterMap_eq_flatMap {α β : Type} {f : α → Option β} {g : α → List β} {xs : List α}
    (h : ∀ x ∈ xs, g x = (f x).toList) : xs.filterMap f = xs.flatMap g := by
  induction xs with
  | nil => rfl
  | cons x xs ih =>
    rw [List.filterMap_cons, List.flatMap_cons, h x List.mem_cons_self,
      ← ih fun y hy => h y (List.mem_cons_of_mem x hy)]
    cases f x <;> rfl

/-- Where a text is treated word by word, the sweep generates the classes of its words. -/
theorem sweptEntries_eq {v : List Char} (hcount : placeholderCount v ≠ 0) (hline : '\n' ∉ v)
    (h : ∀ part ∈ splitOn ' ' v, IsPartByWords design part) :
    sweptEntries design v = wordEntries design v := by
  have heq : ∀ part ∈ splitOn ' ' v, wordEntries design part
      = ((resolveToken? design (String.ofList part)).bind Resolution.entry?).toList := by
    intro part hmem
    exact wordEntries_of_isPartByWords (fun hl => hline (mem_of_mem_splitOn hmem hl)) (h part hmem)
  have hwords : wordEntries design v = (splitOn ' ' v).flatMap (wordEntries design) := by
    rw [wordEntries, ← flatMap_words_splitOn v, List.filterMap_flatMap]
    rfl
  rw [sweptEntries, if_neg (by simp [hcount, hline]), hwords]
  exact filterMap_eq_flatMap heq

/-- The sweep leaves the words and the classes of the pass exactly if it treats a text word by word. -/
theorem isSweptByWords_iff (design : VariableTable) (table : ClassTable) (v : List Char) :
    IsSweptByWords design v ↔ words (sweptValue design v) = (words v).map (resolvedToken design) ∧
      (table.registerAll (wordEntries design v)).1
        = (table.registerAll (sweptEntries design v)).1 := by
  rw [IsSweptByWords]
  by_cases hnone : ∀ w ∈ words v, Placeholder.read? w = none
  · have hcount := placeholderCount_eq_zero_iff.2 hnone
    have hkept : ∀ w ∈ words v, resolvedToken design w = w := fun w hw =>
      resolvedToken_of_read?_eq_none (hnone w hw)
    rw [sweptValue, sweptEntries, if_pos (Or.inl hcount), if_pos (Or.inl hcount),
      wordEntries_eq_nil hkept, List.map_congr_left hkept, List.map_id']
    exact iff_of_true (Or.inl hnone) ⟨rfl, rfl⟩
  · have hcount := mt placeholderCount_eq_zero_iff.1 hnone
    rw [or_iff_right hnone]
    by_cases hline : '\n' ∈ v
    · rw [if_pos hline, sweptValue, sweptEntries, if_pos (Or.inr hline), if_pos (Or.inr hline)]
      constructor
      · intro hkept
        rw [wordEntries_eq_nil hkept, List.map_congr_left hkept, List.map_id']
        exact ⟨rfl, rfl⟩
      · rintro ⟨hwords, -⟩
        exact List.map_inj_left.1 (hwords.symm.trans (List.map_id' _).symm)
    · rw [if_neg hline, words_sweptValue_eq_iff hcount hline]
      exact (and_iff_left_of_imp fun h => by rw [sweptEntries_eq hcount hline h]).symm

/-- The pass and the sweep agree on a class text without quotes and border shorthands exactly if the
sweep treats it word by word, as it does where the only blanks are spaces. -/
theorem agreesOn_iff (c : Context) (tag : String) {attributes : Attributes} {v : List Char}
    (hclass : attributes.text? classAttribute = some (String.ofList v))
    (hquote : '"' ∉ v ∧ '\'' ∉ v)
    (hborder : ∀ w ∈ words v, borderClass? (String.ofList w) = none) :
    AgreesOn c tag attributes v ↔ IsSweptByWords c.design v := by
  obtain ⟨attributes', hdocument, htokens, htable⟩ := run_childless c tag hclass hborder
  obtain ⟨hcode, hswept⟩ := sweep_attribute c.design c.classes hquote
  have hofList : ∀ {ws ws' : List (List Char)},
      ws.map String.ofList = ws'.map String.ofList ↔ ws = ws' := fun {ws ws'} =>
    List.map_inj_right fun _ _ => String.ofList_inj.1
  rw [isSweptByWords_iff c.design c.classes]
  constructor
  · rintro ⟨v', attributes'', hcode', hdocument', htokens', htable'⟩
    have hvalue : sweptValue c.design v = v' := by
      simpa [ClassPiece.text] using hcode.symm.trans hcode'
    have hattributes : attributes' = attributes'' := by
      simpa using hdocument.symm.trans hdocument'
    rw [← hattributes, htokens, hofList, ← hvalue] at htokens'
    exact ⟨htokens'.symm, htable.symm.trans (htable'.trans hswept)⟩
  · rintro ⟨hwords, hentries⟩
    refine ⟨_, attributes', hcode, hdocument, ?_, ?_⟩
    · rw [htokens, hwords]
    · rw [hswept, ← hentries]
      exact htable

/-- Tokens with spaces between them. -/
theorem spaced_agreesOn :
    Attributes.text? [⟨"className", .text "p-[var(--a)] m"⟩] classAttribute
        = some (String.ofList "p-[var(--a)] m".toList) ∧
      ('"' ∉ "p-[var(--a)] m".toList ∧ '\'' ∉ "p-[var(--a)] m".toList) ∧
      (∀ w ∈ words "p-[var(--a)] m".toList, borderClass? (String.ofList w) = none) ∧
      AgreesOn (.new .empty none) "p" [⟨"className", .text "p-[var(--a)] m"⟩]
        "p-[var(--a)] m".toList := by
  have hclass : Attributes.text? [⟨"className", .text "p-[var(--a)] m"⟩] classAttribute
      = some (String.ofList "p-[var(--a)] m".toList) := by decide +kernel
  have hquote : '"' ∉ "p-[var(--a)] m".toList ∧ '\'' ∉ "p-[var(--a)] m".toList := by
    decide +kernel
  have hborder : ∀ w ∈ words "p-[var(--a)] m".toList, borderClass? (String.ofList w) = none := by
    decide +kernel
  exact ⟨hclass, hquote, hborder,
    (agreesOn_iff (.new .empty none) "p" hclass hquote hborder).2 (by decide +kernel)⟩

/-- A tab is no space: the sweep takes two tokens for one, and leaves the placeholder. -/
theorem tab_not_agreesOn :
    Attributes.text? [⟨"className", .text "p-[var(--a)]\tm"⟩] classAttribute
        = some (String.ofList "p-[var(--a)]\tm".toList) ∧
      ('"' ∉ "p-[var(--a)]\tm".toList ∧ '\'' ∉ "p-[var(--a)]\tm".toList) ∧
      (∀ w ∈ words "p-[var(--a)]\tm".toList, borderClass? (String.ofList w) = none) ∧
      ¬ AgreesOn (.new .empty none) "p" [⟨"className", .text "p-[var(--a)]\tm"⟩]
        "p-[var(--a)]\tm".toList := by
  refine ⟨by decide +kernel, by decide +kernel, by decide +kernel, ?_⟩
  rintro ⟨v', attributes', -, -, -, htable⟩
  exact absurd htable (by decide +kernel)

end CssVariables

end MarkupTidy
