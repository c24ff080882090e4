import MarkupTidy.Markup.Printer
import MarkupTidy.Proofs.Markup.Closed
import MarkupTidy.Proofs.Utility.Sweep

/-! # Sweeping texts part by part

A sweep goes over a text from left to right, and a class attribute may begin in one part of the text
and end in another.  Where none does, the parts are swept on their own.

* `sweptText`: a text with the placeholders in its class attributes resolved.
* `Sweeps`: a text that is swept apart from what follows it; `sweeps_of_holdsNoClasses`: a text
  without a class attribute is left.
* `sweptText_name`, `sweptText_text`, `sweptText_classes`: attributes.
* `IsSweepable`: source that is closed, and stays so when it is swept; `IsSweepable.append`,
  `IsSweepable.cons`, `IsSweepable.braced` put such source together. -/

namespace MarkupTidy

open MarkupTidy.Markup MarkupTidy.Text

/-- A text with the placeholders in its class attributes resolved. -/
def sweptText (design : VariableTable) (cs : List Char) : List Char :=
  ClassPiece.join ((ClassPiece.split cs).map (·.resolve design))

/-- The value of a class attribute with its placeholders resolved. -/
def resolvedValue (design : VariableTable) (value : List Char) : List Char :=
  List.intercalate [' '] ((splitOn ' ' value).map (resolvedToken design))

/-- A character of the text that a class attribute begins with. -/
def isOpeningChar (c : Char) : Bool :=
  ClassPiece.opening.contains c

/-- No class attribute can begin in the text. -/
def HoldsNoClasses (cs : List Char) : Prop :=
  ¬ClassPiece.opening <:+: cs

instance (cs : List Char) : Decidable (HoldsNoClasses cs) :=
  inferInstanceAs (Decidable (¬_))

section
variable (design : VariableTable)

/-- The text becomes another one in a sweep, whatever follows it. -/
def SweepsApart (x x' : List Char) : Prop :=
  ∀ following, sweptText design (x ++ following) = x' ++ sweptText design following

/-- The text becomes another one in a sweep, unless what follows it may go on with a class
attribute. -/
def Sweeps (x x' : List Char) : Prop :=
  ∀ following, Stops isOpeningChar following →
    sweptText design (x ++ following) = x' ++ sweptText design following

/-! ### Texts -/

theorem code_sweep_eq (table : ClassTable) (cs : List Char) :
    (sweep design table cs).code = cs ∨ (sweep design table cs).code = sweptText design cs := by
  unfold sweep
  dsimp only
  split
  · exact Or.inl rfl
  · exact Or.inr rfl

theorem sweptText_nil : sweptText design [] = [] := by
  simp [sweptText, ClassPiece.split, ClassPiece.join]

/-- Where no class attribute begins, a sweep goes on behind the character. -/
theorem sweptText_of_readAttribute?_eq_none {c : Char} {rest : List Char}
    (h : ClassPiece.readAttribute? (c :: rest) = none) :
    sweptText design (c :: rest) = c :: sweptText design rest := by
  rw [sweptText, ClassPiece.split_of_readAttribute?_eq_none h, List.map_cons, ClassPiece.join_cons]
  rfl

theorem sweptText_append_of_readAttribute?_eq_none {x following : List Char}
    (h : ∀ t, t ≠ [] → t <:+ x → ClassPiece.readAttribute? (t ++ following) = none) :
    sweptText design (x ++ following) = x ++ sweptText design following := by
  induction x with
  | nil => rfl
  | cons c x ih =>
    have hread := h (c :: x) (List.cons_ne_nil c x) (List.suffix_refl _)
    rw [List.cons_append] at hread ⊢
    rw [sweptText_of_readAttribute?_eq_none design hread,
      ih fun t hne ht => h t hne (ht.trans (List.suffix_cons c x)), List.cons_append]

theorem readAttribute?_eq_none_of_not_opening {cs : List Char} (h : ¬ClassPiece.opening <+: cs) :
    ClassPiece.readAttribute? cs = none := by
  cases hread : ClassPiece.readAttribute? cs with
  | none => rfl
  | some found =>
    obtain ⟨q, value, after⟩ := found
    exact absurd ⟨_, (ClassPiece.readAttribute?_eq_some_iff.1 hread).1.symm⟩ h

/-- A text without a class attribute is left by a sweep. -/
theorem sweeps_of_holdsNoClasses {x : List Char} (h : HoldsNoClasses x) : Sweeps design x x := by
  intro following hstop
  refine sweptText_append_of_readAttribute?_eq_none design fun t hne ht => ?_
  refine readAttribute?_eq_none_of_not_opening fun hopening => ?_
  obtain hpart | ⟨u, hu⟩ := List.prefix_or_prefix_of_prefix hopening (List.prefix_append t following)
  · exact h (hpart.isInfix.trans ht.isInfix)
  · -- the text ends inside of the opening, so what follows goes on with it
    rw [← hu, List.prefix_append_right_inj] at hopening
    cases u with
    | nil =>
      rw [List.append_nil] at hu
      exact h (hu ▸ ht.isInfix)
    | cons c u =>
      obtain ⟨rest, rfl⟩ := hopening
      have hc : c ∈ ClassPiece.opening := by rw [← hu]; simp
      have hstop' := hstop c rfl
      rw [isOpeningChar, List.contains_iff_mem.2 hc] at hstop'
      exact Bool.noConfusion hstop'

theorem holdsNoClasses_of_not_mem {x : List Char} {c : Char} (hc : isOpeningChar c = true)
    (h : c ∉ x) : HoldsNoClasses x :=
  fun hopening => h (hopening.subset (List.contains_iff_mem.1 hc))

/-- A character that begins no class attribute is left by a sweep. -/
theorem sweptText_cons {c : Char} (hc : c ≠ 'c') (rest : List Char) :
    sweptText design (c :: rest) = c :: sweptText design rest := by
  refine sweptText_of_readAttribute?_eq_none design (readAttribute?_eq_none_of_not_opening ?_)
  rintro ⟨more, hmore⟩
  exact hc (List.cons.inj hmore).1.symm

/-! ### Attributes -/

/-- A class attribute begins at a name only if it is the name of the class attribute, and a quoted
value on one line follows. -/
theorem readAttribute?_name_eq_none {name rest : List Char} (hname : '=' ∉ name)
    (h : name = classAttribute.toList → ClassPiece.readAttribute? (ClassPiece.opening ++ rest) = none) :
    ClassPiece.readAttribute? (name ++ '=' :: rest) = none := by
  by_cases heq : name = classAttribute.toList
  · rw [heq]
    exact h heq
  · refine readAttribute?_eq_none_of_not_opening ?_
    rintro ⟨more, hmore⟩
    have hopening : classAttribute.toList ++ '=' :: more = name ++ '=' :: rest := hmore
    exact heq (append_cons_inj hname (by decide) hopening.symm).1

/-- A name and an equals sign that no quote follows are left by a sweep. -/
theorem sweptText_name {name rest : List Char} (hname : '=' ∉ name)
    (hrest : ∀ c, rest.head? = some c → c ≠ '"' ∧ c ≠ '\'') :
    sweptText design (name ++ '=' :: rest) = name ++ '=' :: sweptText design rest := by
  rw [sweptText_append_of_readAttribute?_eq_none design, sweptText_cons design (by decide)]
  refine fun t _ ht => readAttribute?_name_eq_none (fun hmem => hname (ht.subset hmem)) fun _ => ?_
  cases hread : ClassPiece.readAttribute? (ClassPiece.opening ++ rest) with
  | none => rfl
  | some found =>
    obtain ⟨q, value, after⟩ := found
    obtain ⟨heq, hq, -⟩ := ClassPiece.readAttribute?_eq_some_iff.1 hread
    have hquote := hrest q (by rw [List.append_cancel_left heq]; rfl)
    exact absurd hq (not_or.2 hquote)

/-- A name that does not end in that of the class attribute is left by a sweep with its value, and
so is a value with a line feed. -/
theorem sweptText_text {name value following : List Char} {q : Char} (hname : '=' ∉ name)
    (hq : q = '"' ∨ q = '\'') (hvalue : HoldsNoClasses value)
    (h : classAttribute.toList <:+ name → q ∉ value ∧ '\n' ∈ value) :
    sweptText design (name ++ '=' :: q :: (value ++ q :: following)) =
      name ++ '=' :: q :: (value ++ q :: sweptText design following) := by
  have hquote : q ≠ 'c' ∧ isOpeningChar q = false := by
    obtain rfl | rfl := hq <;> decide
  rw [sweptText_append_of_readAttribute?_eq_none design, sweptText_cons design (by decide),
    sweptText_cons design hquote.1, sweeps_of_holdsNoClasses design hvalue _ (stops_cons hquote.2),
    sweptText_cons design hquote.1]
  refine fun t _ ht => readAttribute?_name_eq_none (fun hmem => hname (ht.subset hmem)) fun heq => ?_
  obtain ⟨hmem, hline⟩ := h (heq ▸ ht)
  cases hread : ClassPiece.readAttribute?
      (ClassPiece.opening ++ q :: (value ++ q :: following)) with
  | none => rfl
  | some found =>
    obtain ⟨q', value', after⟩ := found
    obtain ⟨heq, -, hmem', hline'⟩ := ClassPiece.readAttribute?_eq_some_iff.1 hread
    obtain ⟨rfl, hrest⟩ := List.cons.inj (List.append_cancel_left heq)
    rw [(append_cons_inj hmem hmem' hrest).1] at hline
    exact absurd hline hline'

/-- A class attribute that is swept. -/
theorem sweptText_classes {name value following : List Char} {q : Char} (hname : '=' ∉ name)
    (hends : classAttribute.toList <:+ name) (hsound : (ClassPiece.classes q value).IsSound) :
    sweptText design (name ++ '=' :: q :: (value ++ q :: following)) =
      name ++ '=' :: q :: (resolvedValue design value ++ q :: sweptText design following) := by
  obtain ⟨front, rfl⟩ := hends
  have happ : ∀ more, front ++ classAttribute.toList ++ '=' :: more =
      front ++ (ClassPiece.opening ++ more) := fun more => by
    rw [List.append_assoc]
    rfl
  have hpiece : ClassPiece.opening ++ q :: (value ++ q :: following) =
      (ClassPiece.classes q value).text ++ following := by simp [ClassPiece.text]
  rw [happ, happ, sweptText_append_of_readAttribute?_eq_none design, hpiece, sweptText,
    ClassPiece.split_text_append hsound, List.map_cons, ClassPiece.join_cons]
  · simp [ClassPiece.text, ClassPiece.resolve, resolvedValue, sweptText]
  · intro t hne ht
    have hmem : '=' ∉ t ++ classAttribute.toList := by
      rw [List.mem_append, not_or] at hname ⊢
      exact ⟨fun hmem => hname.1 (ht.subset hmem), hname.2⟩
    have hread : ClassPiece.readAttribute?
        (t ++ classAttribute.toList ++ '=' :: q :: (value ++ q :: following)) = none :=
      readAttribute?_name_eq_none hmem fun heq => absurd (List.append_left_eq_self.1 heq) hne
    rwa [List.append_assoc] at hread

/-! ### Parts of a text -/

/-- The text becomes another one in a sweep, and both are of one kind. -/
structure SweepsWithin (P : List Char → Prop) (x x' : List Char) : Prop where
  sweeps : Sweeps design x x'
  before : P x
  after : P x'

/-- The source is closed, is swept apart from what follows it, and is closed when it is swept. -/
structure IsSweepable (source : List Char) : Prop where
  apart : Sweeps design source (sweptText design source)
  closed : IsClosed source
  sweptClosed : IsClosed (sweptText design source)

variable {design} {x x' y y' : List Char}

theorem Sweeps.eq_sweptText (h : Sweeps design x x') : x' = sweptText design x := by
  have hnil := h [] stops_nil
  rw [sweptText_nil, List.append_nil, List.append_nil] at hnil
  exact hnil.symm

theorem Sweeps.append (hx : Sweeps design x x') (hstop : Stops isOpeningChar y)
    (hy : Sweeps design y y') : Sweeps design (x ++ y) (x' ++ y') := by
  intro following hfollowing
  rw [List.append_assoc, hx _ (hstop.append hfollowing), hy _ hfollowing, List.append_assoc]

theorem Sweeps.cons {c : Char} (hc : c ≠ 'c') (hx : Sweeps design x x') :
    Sweeps design (c :: x) (c :: x') := by
  intro following hstop
  rw [List.cons_append, sweptText_cons design hc, hx _ hstop, List.cons_append]

/-- With a character behind it that is in no opening of a class attribute, a text is swept apart from
all that follows. -/
theorem Sweeps.concat (hx : Sweeps design x x') {c : Char} (hc : isOpeningChar c = false) :
    SweepsApart design (x ++ [c]) (x' ++ [c]) := by
  intro following
  have hne : c ≠ 'c' := by
    rintro rfl
    exact absurd hc (by decide)
  rw [List.append_assoc, List.singleton_append, hx _ (stops_cons hc), sweptText_cons design hne,
    List.append_assoc, List.singleton_append]

/-- Source in braces is swept apart from all that follows. -/
theorem Sweeps.braced (hx : Sweeps design x x') : SweepsApart design (braced x) (braced x') :=
  (hx.cons (by decide)).concat (by decide)

theorem SweepsApart.sweeps (h : SweepsApart design x x') : Sweeps design x x' :=
  fun following _ => h following

theorem SweepsApart.append (hx : SweepsApart design x x') (hy : Sweeps design y y') :
    Sweeps design (x ++ y) (x' ++ y') := by
  intro following hfollowing
  rw [List.append_assoc, hx, hy _ hfollowing, List.append_assoc]

/-! ### Closed source -/

/-- A character between two texts: no comment and no class attribute can go on with it. -/
def isEdge (c : Char) : Bool :=
  !isCommentMark c && !isOpeningChar c

namespace IsSweepable

theorem sweepsWithin (h : IsSweepable design x) :
    SweepsWithin design IsPassedOver x (sweptText design x) :=
  ⟨h.apart, isClosed_iff_isPassedOver.1 h.closed, isClosed_iff_isPassedOver.1 h.sweptClosed⟩

theorem of_sweepsWithin (h : SweepsWithin design IsPassedOver x x') : IsSweepable design x := by
  obtain ⟨hsweeps, hbefore, hafter⟩ := h
  obtain rfl := hsweeps.eq_sweptText
  exact ⟨hsweeps, isClosed_iff_isPassedOver.2 hbefore, isClosed_iff_isPassedOver.2 hafter⟩

theorem append {c : Char} (hx : IsSweepable design x) (hc : isEdge c = true)
    (hy : IsSweepable design (c :: y)) : IsSweepable design (x ++ c :: y) := by
  obtain ⟨hsweepsx, hbeforex, hafterx⟩ := hx.sweepsWithin
  obtain ⟨hsweepsy, hbeforey, haftery⟩ := hy.sweepsWithin
  simp only [isEdge, Bool.and_eq_true, Bool.not_eq_true'] at hc
  have hne : c ≠ 'c' := by
    rintro rfl
    exact absurd hc.2 (by decide)
  have hmark : ∀ {z}, Stops isCommentMark (c :: z) := stops_cons hc.1
  rw [sweptText_cons design hne] at hsweepsy haftery
  exact of_sweepsWithin ⟨hsweepsx.append (stops_cons hc.2) hsweepsy, hbeforex.append hbeforey hmark,
    hafterx.append haftery hmark⟩

theorem cons {c : Char} (hc : IsPlainChar c) (hne : c ≠ 'c')
    (hbefore : Verbatim.forbidsLineComment (some c) = false) (hy : IsSweepable design y) :
    IsSweepable design (c :: y) := by
  obtain ⟨hsweeps, hbeforey, haftery⟩ := hy.sweepsWithin
  exact of_sweepsWithin ⟨hsweeps.cons hne, hbeforey.cons hc hbefore, haftery.cons hc hbefore⟩

theorem braced (hy : IsSweepable design y) : IsSweepable design (braced y) := by
  obtain ⟨hsweeps, hbefore, hafter⟩ := hy.sweepsWithin
  exact of_sweepsWithin ⟨hsweeps.braced.sweeps, hbefore.braced, hafter.braced⟩

/-- Closed source without a class attribute. -/
theorem of_holdsNoClasses (hclosed : IsPassedOver x) (h : HoldsNoClasses x) :
    IsSweepable design x :=
  of_sweepsWithin ⟨sweeps_of_holdsNoClasses design h, hclosed, hclosed⟩

/-- Plain characters without an equals sign. -/
theorem of_plain (h : ∀ c ∈ x, IsPlainChar c ∧ c ≠ '=') : IsSweepable design x :=
  of_holdsNoClasses (isPassedOver_of_plain fun c hc => (h c hc).1)
    (holdsNoClasses_of_not_mem (c := '=') rfl fun hmem => (h _ hmem).2 rfl)

end IsSweepable

end

end MarkupTidy
