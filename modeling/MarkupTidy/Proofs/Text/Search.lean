import MarkupTidy.Text.Search

/-! # Cut and joined texts

What is known of a text that has been cut at a separator, or joined with one, and of a text in which
something is found: texts that are put together from what a reader takes and from what it passes over
are read part by part.

* `containsText_append`: a text contains its parts.
* `eq_of_cutAt?`, `append_cons_inj`: a text cut at the first separator.
* `mem_intercalate`, `intercalate_inj`: texts joined with a separator; `mem_of_mem_splitOn`,
  `not_mem_of_mem_splitOn`: the parts of a text; `splitOn_append_cons`: its first part;
  `splitOn_intercalate`: parts that have been joined.
* `append_hyphen_eq_iff`: the ways in which a text can be cut at a hyphen.
* `Finds`: what a reader finds in a text, whatever follows it; `Leaves`: what is left of it;
  `finds_of_read`, `leaves_of_read`, `finds_of_passes`, `leaves_of_passes`: by what is taken and what
  is passed over.
* `exists_read_of_mem_findAll`: all that is found has been read somewhere. -/

namespace MarkupTidy.Text

/-- What holds of all characters of a text is decided by going over the text, not over all characters
there are. -/
instance decidableForallMem (cs : List Char) (p : Char → Prop) [DecidablePred p] :
    Decidable (∀ c ∈ cs, p c) :=
  List.decidableBAll p cs

theorem containsText_append (front part back : List Char) :
    containsText part (front ++ (part ++ back)) = true := by
  induction front with
  | nil =>
    have hprefix : startsWith part (part ++ back) = true :=
      List.isPrefixOf_iff_prefix.2 (List.prefix_append part back)
    cases htext : part ++ back with
    | nil => rw [(List.append_eq_nil_iff.1 htext).1]; rfl
    | cons c cs =>
      rw [htext] at hprefix
      rw [List.nil_append, containsText, hprefix, Bool.true_or]
  | cons c front ih => rw [List.cons_append, containsText, ih, Bool.or_true]

theorem eq_of_cutAt? {separator : Char} {cs front after : List Char}
    (h : cutAt? separator cs = some (front, after)) :
    cs = front ++ separator :: after ∧ separator ∉ front := by
  unfold cutAt? at h
  have hjoin := List.takeWhile_append_dropWhile (p := (· ≠ separator)) (l := cs)
  split at h
  · exact absurd h (by simp)
  · rename_i c tail hdrop
    obtain ⟨rfl, rfl⟩ := Prod.mk.inj (Option.some.inj h)
    have hc := List.head?_dropWhile_not (· ≠ separator) cs
    rw [hdrop] at hc hjoin
    have hc' : c = separator := by simpa using hc
    rw [hc'] at hjoin
    refine ⟨hjoin.symm, fun hmem => ?_⟩
    simpa using List.all_eq_true.1 List.all_takeWhile separator hmem

theorem cutAt?_append_cons {separator : Char} {front : List Char} (h : separator ∉ front)
    (after : List Char) : cutAt? separator (front ++ separator :: after) = some (front, after) := by
  have hne : ∀ c ∈ front, decide (c ≠ separator) = true := by
    intro c hc
    exact decide_eq_true fun he => h (he ▸ hc)
  unfold cutAt?
  rw [List.dropWhile_append_of_pos hne, List.takeWhile_append_of_pos hne]
  simp

/-- A text without a separator is not cut. -/
theorem cutAt?_eq_none {separator : Char} {cs : List Char} (h : separator ∉ cs) :
    cutAt? separator cs = none := by
  cases hcut : cutAt? separator cs with
  | none => rfl
  | some parts =>
    obtain ⟨rfl, -⟩ := eq_of_cutAt? hcut
    exact absurd (List.mem_append_right _ List.mem_cons_self) h

/-- A text in front of the first separator is told from what it is joined to. -/
theorem append_cons_inj {separator : Char} {x x' y y' : List Char} (hx : separator ∉ x)
    (hx' : separator ∉ x') (h : x ++ separator :: y = x' ++ separator :: y') : x = x' ∧ y = y' := by
  obtain ⟨as, hx'', hy⟩ | ⟨bs, hx'', hy⟩ := List.append_eq_append_iff.1 h
  · cases as with
    | nil => exact ⟨by simpa using hx''.symm, (List.cons.inj hy).2⟩
    | cons a as => 
      rw [List.cons_append, List.cons.injEq] at hy
      exact absurd (by rw [hx'', ← hy.1]; simp) hx'
  · cases bs with
    | nil => exact ⟨by simpa using hx'', (List.cons.inj hy).2.symm⟩
    | cons b bs =>
      rw [List.cons_append, List.cons.injEq] at hy
      exact absurd (by rw [hx'', ← hy.1]; simp) hx

theorem mem_intercalate {separator : Char} {parts : List (List Char)} {c : Char} :
    c ∈ List.intercalate [separator] parts → c = separator ∨ ∃ part ∈ parts, c ∈ part := by
  induction parts with
  | nil => simp
  | cons part parts ih =>
    cases parts with
    | nil => exact fun h => Or.inr ⟨part, List.mem_cons_self, by simpa using h⟩
    | cons next parts =>
      rw [List.intercalate_cons_cons, List.append_assoc, List.mem_append,
        List.singleton_append, List.mem_cons]
      rintro (h | rfl | h)
      · exact Or.inr ⟨part, List.mem_cons_self, h⟩
      · exact Or.inl rfl
      · exact (ih h).imp_right fun ⟨p, hp, hc⟩ => ⟨p, List.mem_cons_of_mem part hp, hc⟩

theorem isInfix_intercalate (separator : List Char) {parts : List (List Char)} {part : List Char}
    (h : part ∈ parts) : part <:+: List.intercalate separator parts := by
  induction parts with
  | nil => exact absurd h List.not_mem_nil
  | cons next parts ih =>
    cases parts with
    | nil =>
      obtain rfl := List.mem_singleton.1 h
      exact ⟨[], [], by simp⟩
    | cons next' parts =>
      rw [List.intercalate_cons_cons, List.append_assoc]
      obtain rfl | h := List.mem_cons.1 h
      · exact List.infix_append_left
      · exact List.infix_append_of_infix_right (List.infix_append_of_infix_right (ih h))

theorem mem_intercalate_of_mem (separator : Char) {parts : List (List Char)} {part : List Char}
    (hpart : part ∈ parts) {c : Char} (hc : c ∈ part) : c ∈ List.intercalate [separator] parts :=
  (isInfix_intercalate [separator] hpart).subset hc

/-- The characters of a text are those of its parts, and separators. -/
theorem mem_splitOn (separator : Char) {cs : List Char} {c : Char} (h : c ∈ cs) :
    c = separator ∨ ∃ part ∈ splitOn separator cs, c ∈ part :=
  mem_intercalate (by rwa [intercalate_splitOn])

theorem mem_of_mem_splitOn {separator : Char} {cs part : List Char}
    (hpart : part ∈ splitOn separator cs) {c : Char} (hc : c ∈ part) : c ∈ cs := by
  have h := mem_intercalate_of_mem separator hpart hc
  rwa [intercalate_splitOn] at h

theorem not_mem_of_mem_splitOn {separator : Char} {cs part : List Char}
    (hpart : part ∈ splitOn separator cs) : separator ∉ part := by
  induction cs generalizing part with
  | nil =>
    rw [splitOn, List.mem_singleton] at hpart
    rw [hpart]
    exact List.not_mem_nil
  | cons d cs ih =>
    rw [splitOn] at hpart
    split at hpart
    · obtain rfl | hpart := List.mem_cons.1 hpart
      · exact List.not_mem_nil
      · exact ih hpart
    · rename_i hd
      split at hpart
      · rename_i hnil
        exact absurd hnil (splitOn_ne_nil separator cs)
      · rename_i first parts hsplit
        rw [hsplit] at ih
        obtain rfl | hpart := List.mem_cons.1 hpart
        · rw [List.mem_cons, not_or]
          exact ⟨fun he => hd he.symm, ih List.mem_cons_self⟩
        · exact ih (List.mem_cons_of_mem first hpart)

theorem splitOn_of_not_mem {separator : Char} {cs : List Char} (h : separator ∉ cs) :
    splitOn separator cs = [cs] := by
  induction cs with
  | nil => rfl
  | cons c cs ih =>
    rw [List.mem_cons, not_or] at h
    rw [splitOn, if_neg fun he => h.1 he.symm, ih h.2]

theorem splitOn_append_cons {separator : Char} {part : List Char} (h : separator ∉ part)
    (cs : List Char) : splitOn separator (part ++ separator :: cs) = part :: splitOn separator cs := by
  induction part with
  | nil => rw [List.nil_append, splitOn, if_pos rfl]
  | cons c part ih =>
    rw [List.mem_cons, not_or] at h
    rw [List.cons_append, splitOn, if_neg fun he => h.1 he.symm, ih h.2]

/-- Texts without a separator can be told from what they are joined to. -/
theorem intercalate_inj {sep : Char} {xs ys : List (List Char)} (hxs : ∀ x ∈ xs, sep ∉ x)
    (hys : ∀ y ∈ ys, sep ∉ y) (hx : xs ≠ []) (hy : ys ≠ []) :
    List.intercalate [sep] xs = List.intercalate [sep] ys ↔ xs = ys := by
  refine ⟨fun h => ?_, fun h => h ▸ rfl⟩
  have hsplit := congrArg (List.splitOn sep) h
  rwa [List.splitOn_intercalate sep hxs hx, List.splitOn_intercalate sep hys hy] at hsplit

/-- Texts without a separator come back as they were joined. -/
theorem splitOn_intercalate {separator : Char} {parts : List (List Char)}
    (h : ∀ part ∈ parts, separator ∉ part) (hne : parts ≠ []) :
    splitOn separator (List.intercalate [separator] parts) = parts :=
  (intercalate_inj (fun _ => not_mem_of_mem_splitOn) h (splitOn_ne_nil _ _) hne).1
    (intercalate_splitOn _ _)

theorem afterLast_suffix (separator : Char) (cs : List Char) : afterLast separator cs <:+ cs := by
  rw [afterLast, ← List.reverse_prefix, List.reverse_reverse]
  exact List.takeWhile_prefix _

/-- A text in front of a hyphen is the whole of another such text, or it goes on there. -/
theorem append_hyphen_eq_iff {b b' n n' : List Char} :
    b ++ '-' :: n = b' ++ '-' :: n' ↔
      b = b' ∧ n = n' ∨ (∃ s, b' = b ++ '-' :: s ∧ n = s ++ '-' :: n') ∨
        ∃ s, b = b' ++ '-' :: s ∧ n' = s ++ '-' :: n := by
  constructor
  · intro h
    obtain ⟨s, hb, hn⟩ | ⟨s, hb, hn⟩ := List.append_eq_append_iff.1 h
    · cases s with
      | nil => simp_all
      | cons c s =>
        obtain ⟨rfl, rfl⟩ := List.cons.inj hn
        exact Or.inr (Or.inl ⟨s, hb, rfl⟩)
    · cases s with
      | nil => simp_all
      | cons c s =>
        obtain ⟨rfl, rfl⟩ := List.cons.inj hn
        exact Or.inr (Or.inr ⟨s, hb, rfl⟩)
  · rintro (⟨rfl, rfl⟩ | ⟨s, rfl, rfl⟩ | ⟨s, rfl, rfl⟩) <;> simp

/-- A replacement brings in no characters but its own. -/
theorem mem_of_mem_replaceText {old new cs : List Char} {c : Char}
    (h : c ∈ replaceText old new cs) : c ∈ new ∨ c ∈ cs := by
  fun_induction replaceText old new cs with
  | case1 => exact Or.inr h
  | case2 => exact Or.inr h
  | case3 d rest os after hafter _ ih =>
    rw [afterText?_eq_some] at hafter
    obtain h | h := List.mem_append.1 h
    · exact Or.inl h
    · refine (ih h).imp_right fun hmem => List.mem_cons_of_mem _ ?_
      rw [hafter]
      exact List.mem_append_right _ hmem
  | case4 d rest os hafter ih =>
    obtain rfl | h := List.mem_cons.1 h
    · exact Or.inr List.mem_cons_self
    · exact (ih h).imp_right (List.mem_cons_of_mem _)
  | case5 d rest o os hne ih =>
    obtain rfl | h := List.mem_cons.1 h
    · exact Or.inr List.mem_cons_self
    · exact (ih h).imp_right (List.mem_cons_of_mem _)

/-! ### What a reader finds -/

variable {α : Type} {read : List Char → Option (α × List Char)}

theorem findAll_nil : findAll read [] = [] := by
  simp [findAll, pieces]

theorem removeAll_nil : removeAll read [] = [] := by
  simp [removeAll, pieces]

theorem pieces_append_of_read {x y : List Char} {a : α} (h : read (x ++ y) = some (a, y))
    (hx : x ≠ []) : pieces read (x ++ y) = .found a :: pieces read y := by
  obtain ⟨c, x, rfl⟩ := List.exists_cons_of_ne_nil hx
  rw [List.cons_append] at h ⊢
  rw [pieces, h]
  dsimp only
  rw [if_pos (by simp)]

/-- What a reader finds in a text, whatever follows the text. -/
def Finds (read : List Char → Option (α × List Char)) (x : List Char) (found : List α) : Prop :=
  ∀ y, findAll read (x ++ y) = found ++ findAll read y

/-- What is left of a text without what a reader finds in it, whatever follows the text. -/
def Leaves (read : List Char → Option (α × List Char)) (x left : List Char) : Prop :=
  ∀ y, removeAll read (x ++ y) = left ++ removeAll read y

theorem Finds.findAll_eq {x : List Char} {found : List α} (h : Finds read x found) :
    findAll read x = found := by
  simpa [findAll_nil] using h []

theorem Finds.nil : Finds read [] [] :=
  fun _ => rfl

theorem Finds.append {x x' : List Char} {found found' : List α} (h : Finds read x found)
    (h' : Finds read x' found') : Finds read (x ++ x') (found ++ found') := by
  intro y
  rw [List.append_assoc, h, h', List.append_assoc]

theorem Finds.flatMap {β : Type} {items : List β} {text : β → List Char} {found : β → List α}
    (h : ∀ item ∈ items, Finds read (text item) (found item)) :
    Finds read (items.flatMap text) (items.flatMap found) := by
  induction items with
  | nil => exact Finds.nil
  | cons item items ih =>
    obtain ⟨hitem, hitems⟩ := List.forall_mem_cons.1 h
    rw [List.flatMap_cons, List.flatMap_cons]
    exact hitem.append (ih hitems)

theorem Finds.intercalate {β : Type} {separator : List Char} {items : List β}
    {text : β → List Char} {found : β → List α} (hseparator : Finds read separator [])
    (h : ∀ item ∈ items, Finds read (text item) (found item)) :
    Finds read (List.intercalate separator (items.map text)) (items.flatMap found) := by
  induction items with
  | nil => exact Finds.nil
  | cons item items ih =>
    obtain ⟨hitem, hitems⟩ := List.forall_mem_cons.1 h
    cases items with
    | nil => simpa using hitem
    | cons next items =>
      rw [List.map_cons, List.map_cons, List.intercalate_cons_cons, List.flatMap_cons]
      simpa using (hitem.append hseparator).append (ih hitems)

theorem Leaves.removeAll_eq {x left : List Char} (h : Leaves read x left) :
    removeAll read x = left := by
  simpa [removeAll_nil] using h []

theorem Leaves.nil : Leaves read [] [] :=
  fun _ => rfl

theorem Leaves.append {x x' left left' : List Char} (h : Leaves read x left)
    (h' : Leaves read x' left') : Leaves read (x ++ x') (left ++ left') := by
  intro y
  rw [List.append_assoc, h, h', List.append_assoc]

theorem Leaves.flatMap {β : Type} {items : List β} {text left : β → List Char}
    (h : ∀ item ∈ items, Leaves read (text item) (left item)) :
    Leaves read (items.flatMap text) (items.flatMap left) := by
  induction items with
  | nil => exact Leaves.nil
  | cons item items ih =>
    obtain ⟨hitem, hitems⟩ := List.forall_mem_cons.1 h
    rw [List.flatMap_cons, List.flatMap_cons]
    exact hitem.append (ih hitems)

theorem Leaves.intercalate {β : Type} {separator separator' : List Char} {items : List β}
    {text left : β → List Char} (hseparator : Leaves read separator separator')
    (h : ∀ item ∈ items, Leaves read (text item) (left item)) :
    Leaves read (List.intercalate separator (items.map text))
      (List.intercalate separator' (items.map left)) := by
  induction items with
  | nil => exact Leaves.nil
  | cons item items ih =>
    obtain ⟨hitem, hitems⟩ := List.forall_mem_cons.1 h
    cases items with
    | nil => simpa using hitem
    | cons next items =>
      rw [List.map_cons, List.map_cons, List.intercalate_cons_cons, List.map_cons, List.map_cons,
        List.intercalate_cons_cons]
      exact (hitem.append hseparator).append (ih hitems)

/-- What is taken is found, and reading goes on behind it. -/
theorem finds_of_read {x : List Char} {a : α} (h : ∀ y, read (x ++ y) = some (a, y))
    (hx : x ≠ []) : Finds read x [a] := by
  intro y
  simp [findAll, pieces_append_of_read (h y) hx]

theorem leaves_of_read {x : List Char} {a : α} (h : ∀ y, read (x ++ y) = some (a, y))
    (hx : x ≠ []) : Leaves read x [] := by
  intro y
  simp [removeAll, pieces_append_of_read (h y) hx]

/-- A reader takes nothing that begins in a text. -/
def Passes (read : List Char → Option (α × List Char)) (x y : List Char) : Prop :=
  ∀ front c back, x = front ++ c :: back → read (c :: (back ++ y)) = none

theorem passes_cons {c : Char} {x y : List Char} :
    Passes read (c :: x) y ↔ read (c :: (x ++ y)) = none ∧ Passes read x y := by
  constructor
  · intro h
    exact ⟨h [] c x rfl, fun front d back heq => h (c :: front) d back (by rw [heq]; rfl)⟩
  · rintro ⟨hc, hx⟩ front d back heq
    obtain ⟨rfl, heq⟩ | ⟨front, rfl, heq⟩ := List.cons_eq_append_iff.1 heq
    · obtain ⟨rfl, rfl⟩ := List.cons.inj heq
      exact hc
    · exact hx front d back (List.cons.inj heq).2

/-- A reader passes over characters that it never begins with. -/
theorem passes_of_forall {x : List Char} (h : ∀ c ∈ x, ∀ rest, read (c :: rest) = none)
    (y : List Char) : Passes read x y := by
  intro front c back heq
  exact h c (by simp [heq]) _

theorem pieces_append_of_passes {x y : List Char} (h : Passes read x y) :
    pieces read (x ++ y) = x.map .plain ++ pieces read y := by
  induction x with
  | nil => rfl
  | cons c x ih =>
    obtain ⟨hc, hx⟩ := passes_cons.1 h
    rw [List.cons_append, pieces, hc, ih hx]
    rfl

theorem finds_of_passes {x : List Char} (h : ∀ y, Passes read x y) : Finds read x [] := by
  intro y
  simp [findAll, pieces_append_of_passes (h y)]

theorem leaves_of_passes {x : List Char} (h : ∀ y, Passes read x y) : Leaves read x x := by
  intro y
  have hkept : x.filterMap some = x := List.filterMap_some
  rw [removeAll, pieces_append_of_passes (h y), List.filterMap_append, List.filterMap_map]
  exact congrArg (· ++ removeAll read y) hkept

theorem findAll_eq_nil_of_passes {x : List Char} (h : Passes read x []) : findAll read x = [] := by
  have heq := pieces_append_of_passes h
  rw [List.append_nil] at heq
  simp [findAll, heq, pieces]

/-- Where nothing is found, nothing is removed. -/
theorem removeAll_of_findAll_eq_nil {cs : List Char} (h : findAll read cs = []) :
    removeAll read cs = cs := by
  unfold findAll at h
  unfold removeAll
  fun_induction pieces read cs with
  | case1 => rfl
  | case2 c rest a after _ _ ih => exact absurd h (by simp)
  | case3 c rest a after _ _ ih =>
    simp only [List.filterMap_cons] at h ⊢
    rw [ih h]
  | case4 c rest _ ih =>
    simp only [List.filterMap_cons] at h ⊢
    rw [ih h]

/-- All that is found has been read somewhere. -/
theorem exists_read_of_mem_findAll {cs : List Char} {a : α} (h : a ∈ findAll read cs) :
    ∃ suffix after, read suffix = some (a, after) := by
  unfold findAll at h
  fun_induction pieces read cs with
  | case1 => exact absurd h List.not_mem_nil
  | case2 c rest b after hread _ ih =>
    simp only [List.filterMap_cons, List.mem_cons] at h
    obtain rfl | h := h
    · exact ⟨c :: rest, after, hread⟩
    · exact ih h
  | case3 c rest b after _ _ ih =>
    simp only [List.filterMap_cons] at h
    exact ih h
  | case4 c rest _ ih =>
    simp only [List.filterMap_cons] at h
    exact ih h

end MarkupTidy.Text
