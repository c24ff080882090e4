import MarkupTidy.Proofs.Text.Search
import MarkupTidy.Proofs.Text.Words
import MarkupTidy.Proofs.Variable.Marks

/-! # The levels of a name

A name is cut into levels by slashes.  Its custom property joins them without the blanks around them,
which would each leave a hyphen.

* `tightenSlashes_trim`: a name is tightened by trimming its levels.
* `hyphens_intercalate_trim`: trimming the levels leaves fewer hyphens unless it leaves them as they
  are. -/

namespace MarkupTidy.Variable

open MarkupTidy.Text

/-! ### Trimmed levels -/

theorem tightenFrom_append_cons {part : List Char} (h : '/' ∉ part) {pending : List Char}
    (hp : ∀ c ∈ pending, isBlank c = true) (rest : List Char) :
    tightenFrom pending false (part ++ '/' :: rest)
      = trimRight (pending.reverse ++ part) ++ '/' :: tightenFrom [] true rest := by
  induction part generalizing pending with
  | nil =>
    have hblank : ∀ c ∈ pending.reverse, isBlank c = true := fun c hc => hp c (List.mem_reverse.1 hc)
    rw [List.append_nil, trimRight_of_blank hblank, List.nil_append, tightenFrom, if_pos rfl]
    rfl
  | cons c part ih =>
    rw [List.mem_cons, not_or] at h
    rw [List.cons_append, tightenFrom, if_neg fun he => h.1 he.symm]
    cases hc : isBlank c with
    | true =>
      rw [if_pos rfl, if_neg (by simp), ih h.2 (List.forall_mem_cons.2 ⟨hc, hp⟩), List.reverse_cons,
        List.append_assoc]
      rfl
    | false =>
      rw [if_neg (by simp), ih h.2 (List.forall_mem_nil _), trimRight_append_cons hc]
      simp

theorem tightenFrom_of_not_mem {part : List Char} (h : '/' ∉ part) (pending : List Char) :
    tightenFrom pending false part = pending.reverse ++ part := by
  induction part generalizing pending with
  | nil => simp [tightenFrom]
  | cons c part ih =>
    rw [List.mem_cons, not_or] at h
    rw [tightenFrom, if_neg fun he => h.1 he.symm, ih h.2, ih h.2]
    split <;> simp

/-- Blanks behind a slash are dropped. -/
theorem tightenFrom_true (cs : List Char) :
    tightenFrom [] true cs = tightenFrom [] false (trimLeft cs) := by
  induction cs with
  | nil => rfl
  | cons c cs ih =>
    cases hc : isBlank c with
    | true =>
      have hs : c ≠ '/' := by
        rintro rfl
        revert hc
        decide
      rw [tightenFrom, if_neg hs, if_pos hc, if_pos rfl, ih]
      exact congrArg _ (trimLeft_append (l := [c]) (by simpa using hc) cs).symm
    | false => rw [trimLeft_cons_of_solid hc, tightenFrom, tightenFrom, hc]; rfl

theorem tightenFrom_true_eq {cs : List Char} (h : trimRight cs = cs) :
    tightenFrom [] true cs = List.intercalate ['/'] ((splitOn '/' cs).map trim) := by
  by_cases hmem : '/' ∉ cs
  · have hleft : '/' ∉ trimLeft cs := fun hc => hmem ((List.dropWhile_suffix _).subset hc)
    have htrim : trimLeft cs = trim cs := by
      rw [← trimLeft_trimRight, h]
    rw [tightenFrom_true, tightenFrom_of_not_mem hleft, splitOn_of_not_mem hmem, htrim]
    simp
  · obtain ⟨part, rest, rfl, hpart⟩ := List.eq_append_cons_of_mem (Decidable.not_not.1 hmem)
    have hleft : '/' ∉ trimLeft part := fun hc => hpart ((List.dropWhile_suffix _).subset hc)
    have htrim : trimLeft (part ++ '/' :: rest) = trimLeft part ++ '/' :: rest := by
      obtain hp | ⟨l, c, tail, rfl, hl, hc⟩ := blank_or_exists_solid part
      · have hnil := trimLeft_append hp []
        rw [List.append_nil] at hnil
        rw [trimLeft_append hp, hnil]
        exact trimLeft_cons_of_solid (by decide) rest
      · rw [List.append_assoc, trimLeft_append hl, trimLeft_append hl, List.cons_append,
          trimLeft_cons_of_solid hc, trimLeft_cons_of_solid hc]
        rfl
    rw [trimRight_append_cons (by decide)] at h
    have hrest : trimRight rest = rest := by simpa using h
    rw [tightenFrom_true, htrim, tightenFrom_append_cons hleft (List.forall_mem_nil _),
      tightenFrom_true_eq hrest, splitOn_append_cons hpart]
    obtain ⟨next, parts, hparts⟩ := List.exists_cons_of_ne_nil (splitOn_ne_nil '/' rest)
    rw [hparts, List.map_cons, List.map_cons, List.map_cons, List.intercalate_cons_cons]
    simp [trim]
termination_by cs.length
decreasing_by simp_all; omega

/-- Where no blank stands at its ends, a name is tightened by trimming its levels. -/
theorem tightenSlashes_trim (cs : List Char) : tightenSlashes (trim cs)
    = List.intercalate ['/'] ((splitOn '/' (trim cs)).map trim) := by
  rw [← tightenFrom_true_eq (trimRight_trim cs), tightenFrom_true, trimLeft_trim]
  rfl

/-- A name with trimmed levels is tight. -/
theorem tightenSlashes_eq {name : List Char} (h : ∀ level ∈ splitOn '/' (trim name), trim level = level) :
    tightenSlashes (trim name) = trim name := by
  rw [tightenSlashes_trim, List.map_congr_left h, List.map_id', intercalate_splitOn]

/-! ### Hyphens -/

theorem hyphenateFrom_append_cons {c : Char} (h : isBlank c = false) (afterBlank : Bool)
    (x y : List Char) :
    hyphenateFrom afterBlank (x ++ c :: y) = hyphenateFrom afterBlank x ++ c :: hyphenateFrom false y := by
  induction x generalizing afterBlank with
  | nil => simp [hyphenateFrom, h]
  | cons d x ih =>
    rw [List.cons_append, hyphenateFrom_cons, hyphenateFrom_cons, ih, List.append_assoc]

/-- What is no blank stays when blanks become hyphens. -/
theorem mem_hyphenate_of_mem {cs : List Char} {c : Char} (hc : isBlank c = false) (h : c ∈ cs) :
    c ∈ hyphenate cs := by
  obtain ⟨x, y, rfl⟩ := List.append_of_mem h
  rw [hyphenate, hyphenateFrom_append_cons hc]
  exact List.mem_append_right _ List.mem_cons_self

theorem hyphenateFrom_true_append {l : List Char} (h : ∀ c ∈ l, isBlank c = true)
    (cs : List Char) : hyphenateFrom true (l ++ cs) = hyphenateFrom true cs := by
  induction l with
  | nil => rfl
  | cons c l ih =>
    obtain ⟨hc, hl⟩ := List.forall_mem_cons.1 h
    rw [List.cons_append, hyphenateFrom, if_pos hc, if_pos rfl, ih hl]

/-- The hyphen for blanks at an end of a text. -/
def endHyphen (blanks : List Char) : List Char :=
  if blanks = [] then [] else ['-']

theorem hyphenate_append_left {l cs : List Char} (h : ∀ c ∈ l, isBlank c = true)
    (hb : BeginsSolid cs) : hyphenate (l ++ cs) = endHyphen l ++ hyphenate cs := by
  obtain ⟨d, tail, rfl, hd⟩ := hb
  cases l with
  | nil => rfl
  | cons c l =>
    obtain ⟨hc, hl⟩ := List.forall_mem_cons.1 h
    rw [hyphenate, List.cons_append, hyphenateFrom, if_pos hc, if_neg (by simp),
      hyphenateFrom_true_append hl, hyphenate]
    simp [endHyphen, hyphenateFrom, hd]

theorem hyphenate_append_right {cs r : List Char} (h : ∀ c ∈ r, isBlank c = true)
    (he : EndsSolid cs) : hyphenate (cs ++ r) = hyphenate cs ++ endHyphen r := by
  obtain ⟨front, d, rfl, hd⟩ := he
  rw [hyphenate, List.append_assoc, List.singleton_append, hyphenateFrom_append_cons hd, hyphenate,
    hyphenateFrom_append_cons hd]
  cases r with
  | nil => simp [endHyphen, hyphenateFrom]
  | cons c r =>
    obtain ⟨hc, hr⟩ := List.forall_mem_cons.1 h
    have htail := hyphenateFrom_true_append hr []
    rw [List.append_nil] at htail
    simp [endHyphen, hyphenateFrom, hc, htail]

/-- The number of hyphens in the custom property of a name. -/
def hyphens (cs : List Char) : Nat :=
  (hyphenate cs).count '-' + (hyphenate cs).count '/'

theorem hyphens_append_cons (x y : List Char) :
    hyphens (x ++ '/' :: y) = hyphens x + 1 + hyphens y := by
  unfold hyphens hyphenate
  rw [hyphenateFrom_append_cons (by decide)]
  simp only [List.count_append, List.count_cons, beq_self_eq_true, if_true]
  simp
  omega

/-- Blanks at an end of a level count as hyphens. -/
theorem hyphens_trim_lt {level : List Char} (h : trim level ≠ level) :
    hyphens (trim level) < hyphens level := by
  have hend : ∀ {blanks : List Char}, blanks ≠ [] → endHyphen blanks = ['-'] := fun hne => if_neg hne
  obtain ⟨l, r, heq, hl, hr⟩ := exists_trim level
  by_cases hnil : trim level = []
  · have hblank : ∀ c ∈ level, isBlank c = true := by
      rw [heq, hnil, List.append_nil]
      exact List.forall_mem_append.2 ⟨hl, hr⟩
    obtain ⟨c, tail, rfl⟩ := List.exists_cons_of_ne_nil fun he => h (hnil.trans he.symm)
    obtain ⟨hc, htail⟩ := List.forall_mem_cons.1 hblank
    rw [hnil]
    simp only [hyphens, hyphenate, hyphenateFrom, hc, if_true, Bool.false_eq_true, if_false,
      List.count_nil, List.count_cons_self]
    omega
  · have hsplit : hyphenate level = endHyphen l ++ (hyphenate (trim level) ++ endHyphen r) := by
      conv => lhs; rw [heq, List.append_assoc]
      rw [hyphenate_append_left hl ((beginsSolid_trim hnil).append r),
        hyphenate_append_right hr (endsSolid_trim hnil)]
    have hsides : l ≠ [] ∨ r ≠ [] := by
      refine Decidable.not_and_iff_not_or_not.1 fun hnone => h ?_
      rw [hnone.1, hnone.2] at heq
      simpa using heq.symm
    unfold hyphens
    rw [hsplit]
    simp only [List.count_append]
    obtain hne | hne := hsides
    · rw [hend hne]
      have : ['-'].count '-' = 1 := rfl
      omega
    · rw [hend hne]
      have : ['-'].count '-' = 1 := rfl
      omega

theorem hyphens_trim_le (level : List Char) : hyphens (trim level) ≤ hyphens level := by
  by_cases h : trim level = level
  · exact Nat.le_of_eq (congrArg hyphens h)
  · exact Nat.le_of_lt (hyphens_trim_lt h)

/-- Trimming the levels of a name leaves fewer hyphens unless it leaves them as they are. -/
theorem hyphens_intercalate_trim (levels : List (List Char)) :
    hyphens (List.intercalate ['/'] (levels.map trim)) ≤ hyphens (List.intercalate ['/'] levels) ∧
      (hyphens (List.intercalate ['/'] (levels.map trim)) = hyphens (List.intercalate ['/'] levels) →
        ∀ level ∈ levels, trim level = level) := by
  have hone : ∀ level, hyphens (trim level) = hyphens level → trim level = level := fun level heq =>
    Decidable.byContradiction fun hne => Nat.ne_of_lt (hyphens_trim_lt hne) heq
  induction levels with
  | nil => exact ⟨Nat.le_refl _, fun _ => List.forall_mem_nil _⟩
  | cons level levels ih =>
    have hle := hyphens_trim_le level
    cases levels with
    | nil =>
      simp only [List.map_cons, List.map_nil, List.intercalate_singleton, List.forall_mem_singleton]
      exact ⟨hle, hone level⟩
    | cons next levels =>
      simp only [List.map_cons, List.intercalate_cons_cons, List.append_assoc,
        List.singleton_append, hyphens_append_cons] at ih ⊢
      refine ⟨by omega, fun heq => List.forall_mem_cons.2 ⟨hone level (by omega), ih.2 (by omega)⟩⟩

end MarkupTidy.Variable
