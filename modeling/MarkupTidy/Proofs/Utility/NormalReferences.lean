import MarkupTidy.Proofs.Markup.Passage
import MarkupTidy.Proofs.Variable.Spelling
import MarkupTidy.Utility.Resolution

/-! # References of an inline style in clean form

A style value is read from left to right for references, and every reference is cleaned.  A clean
form is read as a reference again, unless nothing is left of its name, and no reference comes about
where there was none: what a reference begins with holds the first letter of another one only at its
own beginning, and apart from references every character stays where it is.

* `readReference?_eq_some_iff`, `exists_readReference?_iff`: where a reference is read.
* `normalizeReferences_append`: a text in front of which no reference begins.
* `prefix_of_prefix_normalizeReferences`: what a clean text begins with.
* `normalizeReferences_normalizeReferences`: clean forms are clean. -/

namespace MarkupTidy

open MarkupTidy.Markup MarkupTidy.Text MarkupTidy.Variable

/-! ### Reading a reference -/

/-- What stands in front of the name of a reference. -/
def referenceFront (blanks : List Char) : List Char :=
  "var(".toList ++ (blanks ++ ['-', '-'])

theorem readReference?_eq_some_iff {cs reference after : List Char} :
    readReference? cs = some (reference, after) ↔
      ∃ blanks name, (∀ c ∈ blanks, isBlank c = true) ∧ cs = referenceFront blanks ++ (name ++ after) ∧
        reference = '-' :: '-' :: name ∧ name ≠ [] ∧ (∀ c ∈ name, isReferenceChar c = true) ∧
        Stops isReferenceChar after := by
  constructor
  · intro h
    simp only [readReference?, Option.bind_eq_bind, Option.bind_eq_some_iff] at h
    obtain ⟨tail, htail, text, htext, h⟩ := h
    rw [afterText?_eq_some] at htail htext
    split at h
    · exact absurd h (by simp)
    · rename_i hne
      obtain ⟨rfl, rfl⟩ := Prod.mk.inj (Option.some.inj h)
      have hafter : (trimLeft tail).dropWhile isReferenceChar = text.dropWhile isReferenceChar := by
        rw [htext]
        rfl
      have hsplit : tail = tail.takeWhile isBlank ++ trimLeft tail :=
        List.takeWhile_append_dropWhile.symm
      refine ⟨tail.takeWhile isBlank, text.takeWhile isReferenceChar, forall_mem_takeWhile tail, ?_,
        ?_, by simpa using hne, forall_mem_takeWhile text, stops_dropWhile _⟩
      · rw [hafter, List.takeWhile_append_dropWhile, htail, referenceFront, List.append_assoc,
          List.append_assoc, ← htext, ← hsplit]
      · rw [htext]
        rfl
  · rintro ⟨blanks, name, hblanks, rfl, rfl, hne, hname, hstop⟩
    have hstart : trimLeft (blanks ++ '-' :: '-' :: (name ++ after)) = '-' :: '-' :: (name ++ after) := by
      rw [trimLeft_append hblanks]
      exact trimLeft_cons_of_solid (by decide) _
    have htail : afterText? "var(".toList (referenceFront blanks ++ (name ++ after))
        = some (blanks ++ '-' :: '-' :: (name ++ after)) :=
      afterText?_eq_some.2 (by simp [referenceFront])
    have hreference : ∀ c ∈ '-' :: '-' :: name, isReferenceChar c = true :=
      List.forall_mem_cons.2 ⟨by decide, List.forall_mem_cons.2 ⟨by decide, hname⟩⟩
    have htake := takeWhile_append_of_stops hreference hstop
    have hdrop := dropWhile_append_of_stops hreference hstop
    have htext : afterText? ['-', '-'] ('-' :: '-' :: (name ++ after)) = some (name ++ after) :=
      afterText?_eq_some.2 rfl
    simp only [readReference?, Option.bind_eq_bind]
    rw [htail, Option.bind_some, hstart, htext, Option.bind_some,
      takeWhile_append_of_stops hname hstop, if_neg (by simpa using hne)]
    exact congrArg some (Prod.ext htake hdrop)

/-- A reference is read where its name goes on behind the front of one. -/
theorem exists_readReference?_iff {cs : List Char} :
    (∃ found, readReference? cs = some found) ↔
      ∃ blanks rest, (∀ c ∈ blanks, isBlank c = true) ∧ cs = referenceFront blanks ++ rest ∧
        ¬ Stops isReferenceChar rest := by
  constructor
  · rintro ⟨⟨reference, after⟩, h⟩
    obtain ⟨blanks, name, hblanks, hcs, -, hne, hname, -⟩ := readReference?_eq_some_iff.1 h
    refine ⟨blanks, name ++ after, hblanks, hcs, fun hstop => ?_⟩
    obtain ⟨c, name, rfl⟩ := List.exists_cons_of_ne_nil hne
    exact Bool.noConfusion ((hname c List.mem_cons_self).symm.trans (hstop c rfl))
  · rintro ⟨blanks, rest, hblanks, hcs, hgoes⟩
    refine ⟨_, readReference?_eq_some_iff.2 ⟨blanks, rest.takeWhile isReferenceChar, hblanks, ?_, rfl,
      fun hnil => hgoes ?_, forall_mem_takeWhile rest, stops_dropWhile rest⟩⟩
    · rw [List.takeWhile_append_dropWhile, hcs]
    · rw [← List.takeWhile_append_dropWhile (p := isReferenceChar) (l := rest), hnil]
      exact stops_dropWhile rest

/-- What follows a reference ends it. -/
theorem of_readReference? {cs reference after : List Char}
    (h : readReference? cs = some (reference, after)) : after <:+ cs ∧ Stops isReferenceChar after := by
  obtain ⟨blanks, name, -, rfl, -, -, -, hstop⟩ := readReference?_eq_some_iff.1 h
  exact ⟨(List.suffix_append name after).trans (List.suffix_append _ _), hstop⟩

theorem readReference?_eq_none_of_ne {c : Char} (h : c ≠ 'v') (rest : List Char) :
    readReference? (c :: rest) = none := by
  refine Option.eq_none_iff_forall_ne_some.2 fun found hread => ?_
  obtain ⟨blanks, tail, -, heq, -⟩ := exists_readReference?_iff.1 ⟨found, hread⟩
  exact h (List.cons.inj heq).1

/-! ### Clean texts -/

theorem normalizeReferences_of_some {cs reference after : List Char}
    (h : readReference? cs = some (reference, after)) : normalizeReferences cs
      = "var(--".toList ++ cleanReference reference ++ normalizeReferences after := by
  cases cs with
  | nil =>
    obtain ⟨blanks, name, -, heq, -⟩ := readReference?_eq_some_iff.1 h
    exact absurd (congrArg List.length heq) (by simp [referenceFront])
  | cons c rest =>
    rw [normalizeReferences]
    split
    · rename_i hread
      rw [h] at hread
      obtain ⟨rfl, rfl⟩ := Prod.mk.inj (Option.some.inj hread)
      rfl
    · rename_i hread
      rw [h] at hread
      exact absurd hread (by simp)

theorem normalizeReferences_of_none {c : Char} {rest : List Char}
    (h : readReference? (c :: rest) = none) :
    normalizeReferences (c :: rest) = c :: normalizeReferences rest := by
  rw [normalizeReferences]
  split
  · rename_i hread
    rw [h] at hread
    exact absurd hread (by simp)
  · rfl

/-- No reference begins in a text without the first letter of one. -/
theorem normalizeReferences_append {w : List Char} (hw : 'v' ∉ w) (cs : List Char) :
    normalizeReferences (w ++ cs) = w ++ normalizeReferences cs := by
  induction w with
  | nil => rfl
  | cons c w ih =>
    rw [List.mem_cons, not_or] at hw
    rw [List.cons_append, normalizeReferences_of_none (readReference?_eq_none_of_ne (Ne.symm hw.1) _),
      ih hw.2]
    rfl

theorem head?_normalizeReferences (cs : List Char) :
    (normalizeReferences cs).head? = cs.head? := by
  cases cs with
  | nil =>
    unfold normalizeReferences
    rfl
  | cons c rest =>
    cases h : readReference? (c :: rest) with
    | none =>
      rw [normalizeReferences_of_none h]
      rfl
    | some found =>
      obtain ⟨blanks, tail, -, heq, -⟩ := exists_readReference?_iff.1 ⟨found, h⟩
      rw [normalizeReferences_of_some h, heq]
      rfl

theorem stops_normalizeReferences_iff {p : Char → Bool} {cs : List Char} :
    Stops p (normalizeReferences cs) ↔ Stops p cs := by
  rw [Stops, Stops, head?_normalizeReferences]

/-- What a text in clean form begins with, it began with before, unless a reference begins there. -/
theorem prefix_of_prefix_normalizeReferences {w cs : List Char} (hw : 'v' ∉ w)
    (h : w <+: normalizeReferences cs) : w <+: cs := by
  induction w generalizing cs with
  | nil => exact List.nil_prefix
  | cons d w ih =>
    rw [List.mem_cons, not_or] at hw
    cases cs with
    | nil => exact absurd h (by simp [normalizeReferences])
    | cons c rest =>
      obtain ⟨after, heq⟩ := h
      have hhead := head?_normalizeReferences (c :: rest)
      rw [← heq] at hhead
      obtain rfl : d = c := by simpa using hhead
      rw [normalizeReferences_of_none (readReference?_eq_none_of_ne (Ne.symm hw.1) rest)] at heq
      exact List.cons_prefix_cons.2 ⟨rfl, ih hw.2 ⟨after, (List.cons.inj heq).2⟩⟩

/-! ### Clean forms -/

/-- A bare name of a reference goes on to its end when it is read. -/
theorem isReferenceChar_of_mem_cleanReference {reference : List Char}
    (h : ∀ c ∈ reference, isReferenceChar c = true) {c : Char} (hc : c ∈ cleanReference reference) :
    isReferenceChar c = true := by
  obtain ⟨hblank, -, hclose, horigin⟩ := mem_cleanReference hc
  have hcomma : c ≠ ',' := by
    rintro rfl
    obtain hmem | hmem | hlow := horigin
    · exact absurd (h _ hmem) (by decide)
    · exact absurd hmem (by decide)
    · exact absurd hlow.1 (by decide)
  simp [isReferenceChar, hcomma, hclose, hblank]

theorem referenceFront_eq (blanks : List Char) :
    referenceFront blanks = 'v' :: ("ar(".toList ++ (blanks ++ ['-', '-'])) :=
  rfl

/-- What a reference begins with has the first letter of one only at its own beginning. -/
theorem not_mem_tail_referenceFront {blanks : List Char} (h : ∀ c ∈ blanks, isBlank c = true) :
    'v' ∉ "ar(".toList ++ (blanks ++ ['-', '-']) := by
  have hblank : 'v' ∉ blanks := fun hmem => absurd (h _ hmem) (by decide)
  simp [hblank]

/-- Where no reference is read, none is read in the clean text either. -/
theorem readReference?_normalizeReferences {c : Char} {rest : List Char}
    (h : readReference? (c :: rest) = none) :
    readReference? (c :: normalizeReferences rest) = none := by
  refine Option.eq_none_iff_forall_ne_some.2 fun found hread => ?_
  obtain ⟨blanks, tail, hblanks, heq, hgoes⟩ := exists_readReference?_iff.1 ⟨found, hread⟩
  rw [referenceFront_eq, List.cons_append, List.cons.injEq] at heq
  obtain ⟨rfl, heq⟩ := heq
  have hmiddle := not_mem_tail_referenceFront hblanks
  obtain ⟨rest', rfl⟩ := prefix_of_prefix_normalizeReferences hmiddle ⟨tail, heq.symm⟩
  rw [normalizeReferences_append hmiddle] at heq
  rw [← List.append_cancel_left heq, stops_normalizeReferences_iff] at hgoes
  obtain ⟨found', hread'⟩ := exists_readReference?_iff.2 ⟨blanks, rest', hblanks, rfl, hgoes⟩
  rw [referenceFront_eq, List.cons_append, h] at hread'
  exact absurd hread' (by simp)

/-- The front of a reference without a name is no reference. -/
theorem readReference?_front {rest : List Char} (hstop : Stops isReferenceChar rest) :
    readReference? (referenceFront [] ++ rest) = none := by
  refine Option.eq_none_iff_forall_ne_some.2 fun found hread => ?_
  obtain ⟨blanks, tail, hblanks, heq, hgoes⟩ := exists_readReference?_iff.1 ⟨found, hread⟩
  unfold referenceFront at heq
  rw [List.append_assoc, List.append_assoc] at heq
  have htail := List.append_cancel_left heq
  cases blanks with
  | nil =>
    obtain rfl : rest = tail := by simpa using htail
    exact hgoes hstop
  | cons d blanks =>
    obtain rfl : '-' = d := (List.cons.inj htail).1
    exact absurd (hblanks _ List.mem_cons_self) (by decide)

/-- A reference that is clean but for what follows it. -/
theorem normalizeReferences_of_isBare {name : List Char} (hbare : IsBare name)
    (hname : ∀ c ∈ name, isReferenceChar c = true) {rest : List Char}
    (hstop : Stops isReferenceChar rest) : normalizeReferences (referenceFront [] ++ (name ++ rest))
      = referenceFront [] ++ (name ++ normalizeReferences rest) := by
  by_cases hnil : name = []
  · rw [hnil, List.nil_append, List.nil_append]
    have hnone := readReference?_front hstop
    rw [referenceFront_eq, List.cons_append] at hnone ⊢
    rw [normalizeReferences_of_none hnone,
      normalizeReferences_append (not_mem_tail_referenceFront (List.forall_mem_nil _))]
    rfl
  · have hread := readReference?_eq_some_iff.2
      ⟨[], name, List.forall_mem_nil _, rfl, rfl, hnil, hname, hstop⟩
    rw [normalizeReferences_of_some hread, cleanReference_of_isBare hbare, List.append_assoc]
    rfl

/-- A style value with its references in clean form has them in clean form: cleaning again changes
nothing. -/
theorem normalizeReferences_normalizeReferences (cs : List Char) :
    normalizeReferences (normalizeReferences cs) = normalizeReferences cs := by
  fun_induction normalizeReferences cs with
  | case1 => simp [normalizeReferences]
  | case2 c rest reference after hread _ ih =>
    obtain ⟨-, name, -, -, rfl, -, hname, hstop⟩ := readReference?_eq_some_iff.1 hread
    have hreference : ∀ c ∈ '-' :: '-' :: name, isReferenceChar c = true :=
      List.forall_mem_cons.2 ⟨by decide, List.forall_mem_cons.2 ⟨by decide, hname⟩⟩
    have hclean := normalizeReferences_of_isBare (isBare_cleanReference ('-' :: '-' :: name))
      (fun c hc => isReferenceChar_of_mem_cleanReference hreference hc)
      (stops_normalizeReferences_iff.2 hstop)
    rw [ih] at hclean
    rw [List.append_assoc]
    exact hclean
  | case3 c rest hread ih =>
    rw [normalizeReferences_of_none (readReference?_normalizeReferences hread), ih]

end MarkupTidy
