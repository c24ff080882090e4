import Mathlib.Data.List.Forall2
import MarkupTidy.Proofs.Pass.WrittenTokens
import MarkupTidy.Proofs.Utility.SweepResidue
import MarkupTidy.Proofs.Utility.SweptText

/-! # Names of generated classes among other tokens

The name that takes the place of a token is no placeholder, so nothing resolves it a second time: it
is among the tokens of a class text before a sweep, and after it.

* `CssVariables.WritesClass`: an element is given a generated class.
* `CssVariables.WritesClass.read?_eq_none`: the name of the class is no placeholder.
* `Attributes.sweptClasses`: the class tokens of an element when its class text is swept;
  `Attributes.mem_sweptClasses`: what is no placeholder stays among them.
* `ClassPiece.split_sweep`: the class attributes of a swept text. -/

namespace MarkupTidy

open MarkupTidy.Text

/-! ### Names -/

/-- Neither a digit nor a stand-in is a bracket. -/
theorem bracket_not_mem_borderClass {token : String} {entry : ClassEntry}
    (h : borderClass? token = some entry) : '[' ∉ entry.name.toList := by
  obtain ⟨widths, hread, rfl⟩ := Option.map_eq_some_iff.1 h
  have hwidths := (ClassTarget.isKnown_of_shorthand hread).2
  have hstart : '[' ∉ "border-w-".toList := by decide
  have hstandIns : '[' ∉ ['d', 'o', 't'] := by decide
  rw [String.toList_append, String.toList_ofList (l := List.intercalate _ _), List.mem_append, not_or]
  refine ⟨hstart, fun hmem => ?_⟩
  obtain heq | ⟨part, hpart, hmem⟩ := mem_intercalate hmem
  · exact absurd heq (by decide)
  · obtain ⟨w, hw, rfl⟩ := List.mem_map.1 hpart
    obtain ⟨c, hc, hmem⟩ := List.mem_flatMap.1 hmem
    split at hmem
    · exact hstandIns hmem
    · obtain rfl := List.mem_singleton.1 hmem
      obtain hc | hc := mem_of_mem_replaceText hc
      · exact List.not_mem_nil hc
      · exact ClassTarget.ne_of_mem_width (hwidths w hw) rfl (by decide) (by decide) hc rfl

theorem Placeholder.read?_eq_none_of_not_mem {token : List Char} (h : '[' ∉ token) :
    Placeholder.read? token = none := by
  rw [Placeholder.read?, cutAt?_eq_none h]
  rfl

namespace CssVariables

variable {design : VariableTable} {token : String} {entry : ClassEntry}

namespace TokenChange

theorem token_of_entry {change : TokenChange} (h : change.entry? = some entry) (written : String) :
    change.token written = entry.name := by
  cases change with
  | plain => exact absurd h (by simp [TokenChange.entry?])
  | border e => exact congrArg ClassEntry.name (Option.some.inj h)
  | placeholder resolution =>
    cases resolution with
    | synthesized e => exact congrArg ClassEntry.name (Option.some.inj h)
    | canonical t => exact absurd h (by simp [TokenChange.entry?, Resolution.entry?])
    | fallback t => exact absurd h (by simp [TokenChange.entry?, Resolution.entry?])
    | unrecognized => exact absurd h (by simp [TokenChange.entry?, Resolution.entry?])

theorem not_isKept_of_entry {change : TokenChange} (h : change.entry? = some entry) :
    ¬ change.IsKept := by
  rintro (rfl | rfl)
  · exact absurd h (by simp [TokenChange.entry?])
  · exact absurd h (by simp [TokenChange.entry?, Resolution.entry?])

end TokenChange

/-- A generated class does not have the name of a placeholder. -/
theorem read?_eq_none_of_entry (htoken : IsToken token)
    (h : TokenChange.entry? (TokenChange.of design token) = some entry) :
    Placeholder.read? entry.name.toList = none := by
  unfold TokenChange.of at h
  cases hborder : borderClass? token with
  | some e =>
    rw [hborder] at h
    obtain rfl := Option.some.inj h
    exact Placeholder.read?_eq_none_of_not_mem (bracket_not_mem_borderClass hborder)
  | none =>
    rw [hborder] at h
    cases hresolve : resolveToken? design token with
    | none =>
      rw [hresolve] at h
      exact absurd h (by simp [TokenChange.entry?])
    | some resolution =>
      rw [hresolve] at h
      obtain ⟨p, hread, rfl⟩ := Option.map_eq_some_iff.1 hresolve
      obtain ⟨body, hspells⟩ := Placeholder.exists_spells hread htoken.line_not_mem
      cases hp : p.resolve design with
      | synthesized e =>
        rw [hp] at h
        obtain rfl := Option.some.inj h
        obtain ⟨binding, hbinding, rfl⟩ := Placeholder.exists_binding_of_resolve hp
        exact read?_eq_none_of_isNameFor (IsNameFor.generated hspells hbinding)
      | _ => rw [hp] at h; exact absurd h (by simp [TokenChange.entry?, Resolution.entry?])

/-! ### Elements -/

/-- A token of the element calls for a generated class. -/
def WritesClass (design : VariableTable) (as : Attributes) (entry : ClassEntry) : Prop :=
  ∃ token ∈ as.classes, TokenChange.entry? (TokenChange.of design token) = some entry

/-- The class tokens of an element once its variables are resolved. -/
def resolvedClasses (design : VariableTable) (as : Attributes) : List String :=
  as.classes.map fun t => (TokenChange.of design t).token t

namespace WritesClass

variable {as : Attributes} (h : WritesClass design as entry)
include h

theorem mem_resolvedClasses : entry.name ∈ resolvedClasses design as := by
  obtain ⟨token, hmem, hentry⟩ := h
  exact List.mem_map.2 ⟨token, hmem, TokenChange.token_of_entry hentry token⟩

/-- The name of the class is no placeholder. -/
theorem read?_eq_none : Placeholder.read? entry.name.toList = none := by
  obtain ⟨token, hmem, hentry⟩ := h
  exact read?_eq_none_of_entry (Attributes.isToken_of_mem_classes hmem) hentry

/-- The classes of the element are not what they were. -/
theorem resolvedClasses_ne : resolvedClasses design as ≠ as.classes := by
  obtain ⟨token, hmem, hentry⟩ := h
  intro heq
  have hall := List.map_inj_left.1 (heq.trans (List.map_id as.classes).symm)
  exact TokenChange.not_isKept_of_entry hentry
    (isKept_of_token_eq (Attributes.isToken_of_mem_classes hmem) (hall token hmem))

end WritesClass

end CssVariables

namespace Attributes

/-- The class text of the element is its class tokens with a space between two. -/
def IsJoined (as : Attributes) : Prop :=
  as.text? classAttribute = some (joinTokens as.classes)

theorem isJoined_setClasses (as : Attributes) {tokens : List String}
    (h : ∀ t ∈ tokens, IsToken t) : (as.setClasses tokens).IsJoined := by
  rw [IsJoined, classes_setClasses h, setClasses, text?_set_self]

/-- The class tokens of an element when its class text is swept. -/
def sweptClasses (design : VariableTable) (as : Attributes) : List String :=
  match as.text? classAttribute with
  | some value => classTokens (String.ofList (resolvedValue design value.toList))
  | none => []

/-- What is no placeholder is among the class tokens also after a sweep. -/
theorem mem_sweptClasses {design : VariableTable} {as : Attributes} (h : as.IsJoined)
    {token : String} (hmem : token ∈ as.classes) (hread : Placeholder.read? token.toList = none) :
    token ∈ as.sweptClasses design := by
  have htokens : ∀ t ∈ as.classes, IsToken t := fun t ht => isToken_of_mem_classes ht
  have hparts : splitOn ' ' (joinTokens as.classes).toList = as.classes.map String.toList := by
    rw [toList_joinTokens htokens]
    refine splitOn_intercalate (List.forall_mem_map.2 fun t ht hspace => ?_) ?_
    · exact absurd ((htokens t ht).solid _ hspace) (by decide)
    · exact fun hnil => List.ne_nil_of_mem hmem (List.map_eq_nil_iff.1 hnil)
  rw [sweptClasses, h]
  dsimp only
  rw [classTokens, String.toList_ofList, resolvedValue, hparts, words_intercalate (by decide)]
  refine List.mem_map.2 ⟨token.toList, List.mem_flatMap.2 ⟨token.toList, ?_, ?_⟩,
    String.ofList_toList⟩
  · refine List.mem_map.2 ⟨token.toList, List.mem_map_of_mem hmem, ?_⟩
    exact resolvedToken_of_read?_eq_none hread
  · rw [(htokens token hmem).words_eq]
    exact List.mem_singleton_self _

end Attributes

/-- The pieces of a swept text are those of the text, each as it was or resolved. -/
theorem ClassPiece.split_sweep (design : VariableTable) (table : ClassTable) (code : List Char) :
    List.Forall₂ (fun piece piece' => piece' = piece ∨ piece' = piece.resolve design)
      (split code) (split (sweep design table code).code) := by
  by_cases hfound : (sweep design table code).found = 0
  · rw [sweep_of_found_eq_zero design table code hfound]
    exact List.forall₂_same.2 fun _ _ => Or.inl rfl
  · rw [split_code_sweep design table code hfound, List.forall₂_map_right_iff]
    exact List.forall₂_same.2 fun _ _ => Or.inr rfl

end MarkupTidy
