import MarkupTidy.Markup.Node
import MarkupTidy.Proofs.Text.Words

/-! # Class tokens in attributes

What a class text holds once tokens have been written to it.  A token that is empty or has blanks
inside does not come back as it was written; every other one does.

* `IsToken`: a text that is one class token; `Attributes.isToken_of_mem_classes`: what is read is.
* `classTokens_joinTokens`, `Attributes.classes_setClasses`: tokens that are written come back.
* `Attributes.classes_set_of_ne`: other attributes have no say in the classes. -/

namespace MarkupTidy

open MarkupTidy.Text

/-- A text that is one class token: not empty, and without blanks. -/
structure IsToken (token : String) : Prop where
  solid : IsSolid token.toList
  ne_nil : token.toList ≠ []

instance (token : String) : Decidable (IsToken token) :=
  decidable_of_iff (IsSolid token.toList ∧ token.toList ≠ [])
    ⟨fun ⟨solid, hne⟩ => ⟨solid, hne⟩, fun ⟨solid, hne⟩ => ⟨solid, hne⟩⟩

namespace IsToken

variable {token : String}

theorem ne_empty (h : IsToken token) : token ≠ "" := by
  rintro rfl
  exact h.ne_nil rfl

theorem line_not_mem (h : IsToken token) : '\n' ∉ token.toList :=
  fun hmem => absurd (h.solid _ hmem) (by decide)

theorem words_eq (h : IsToken token) : words token.toList = [token.toList] :=
  words_of_isSolid h.solid h.ne_nil

end IsToken

theorem isToken_ofList {cs : List Char} : IsToken (String.ofList cs) ↔ IsSolid cs ∧ cs ≠ [] := by
  constructor
  · rintro ⟨solid, hne⟩
    rw [String.toList_ofList] at solid hne
    exact ⟨solid, hne⟩
  · rintro ⟨solid, hne⟩
    rw [← String.toList_ofList (l := cs)] at solid hne
    exact ⟨solid, hne⟩

theorem isToken_of_mem_classTokens {value token : String} (h : token ∈ classTokens value) :
    IsToken token := by
  obtain ⟨w, hw, rfl⟩ := List.mem_map.1 h
  exact isToken_ofList.2 (isSolid_of_mem_words hw)

/-- The tokens of tokens written as one text. -/
theorem classTokens_joinTokens_eq (tokens : List String) :
    classTokens (joinTokens tokens) =
      ((tokens.filter (· ≠ "")).flatMap fun t => words t.toList).map String.ofList := by
  unfold classTokens joinTokens
  rw [String.toList_intercalate]
  refine congrArg (List.map String.ofList) ?_
  exact (words_intercalate (by decide) _).trans (List.flatMap_map ..)

theorem filter_ne_empty {tokens : List String} (h : ∀ t ∈ tokens, IsToken t) :
    tokens.filter (· ≠ "") = tokens := by
  rw [List.filter_eq_self]
  intro t ht
  simpa using (h t ht).ne_empty

/-- Tokens as one text have a space between two. -/
theorem toList_joinTokens {tokens : List String} (h : ∀ t ∈ tokens, IsToken t) :
    (joinTokens tokens).toList = List.intercalate [' '] (tokens.map String.toList) := by
  rw [joinTokens, filter_ne_empty h, String.toList_intercalate]
  rfl

/-- Tokens that are written come back. -/
theorem classTokens_joinTokens {tokens : List String} (h : ∀ t ∈ tokens, IsToken t) :
    classTokens (joinTokens tokens) = tokens := by
  rw [classTokens_joinTokens_eq, filter_ne_empty h]
  induction tokens with
  | nil => rfl
  | cons t tokens ih =>
    obtain ⟨ht, htokens⟩ := List.forall_mem_cons.1 h
    rw [List.flatMap_cons, ht.words_eq, List.map_append, ih htokens, List.map_singleton,
      String.ofList_toList, List.singleton_append]

/-- A token comes back, whatever stands beside it. -/
theorem mem_classTokens_joinTokens {tokens : List String} {token : String} (h : IsToken token)
    (hmem : token ∈ tokens) : token ∈ classTokens (joinTokens tokens) := by
  have hkept : token ∈ tokens.filter (· ≠ "") :=
    List.mem_filter.2 ⟨hmem, by simpa using h.ne_empty⟩
  rw [classTokens_joinTokens_eq]
  refine List.mem_map.2 ⟨token.toList, List.mem_flatMap.2 ⟨token, hkept, ?_⟩, String.ofList_toList⟩
  rw [h.words_eq]
  exact List.mem_singleton_self _

namespace Attributes

variable {as : Attributes}

theorem text?_set_self (as : Attributes) (name value : String) :
    (as.set name (.text value)).text? name = some value := by
  rw [text?, value?_set_self]

theorem text?_set_of_ne (as : Attributes) {name other : String} (value : AttributeValue)
    (hne : name ≠ other) : (as.set name value).text? other = as.text? other := by
  rw [text?, text?, value?_set_ne as value hne]

theorem isToken_of_mem_classes {token : String} (h : token ∈ as.classes) : IsToken token := by
  unfold classes at h
  split at h
  · exact isToken_of_mem_classTokens h
  · exact absurd h List.not_mem_nil

/-- Other attributes have no say in the classes. -/
theorem classes_set_of_ne (as : Attributes) {name : String} (value : AttributeValue)
    (hne : name ≠ classAttribute) : (as.set name value).classes = as.classes := by
  rw [classes, classes, text?_set_of_ne as value hne]

theorem classes_setClasses_eq (as : Attributes) (tokens : List String) :
    (as.setClasses tokens).classes = classTokens (joinTokens tokens) := by
  rw [classes, setClasses, text?_set_self]

/-- The classes are what was written last. -/
theorem classes_setClasses {tokens : List String} (h : ∀ t ∈ tokens, IsToken t) :
    (as.setClasses tokens).classes = tokens := by
  rw [classes_setClasses_eq, classTokens_joinTokens h]

theorem mem_classes_setClasses {tokens : List String} {token : String} (h : IsToken token)
    (hmem : token ∈ tokens) : token ∈ (as.setClasses tokens).classes := by
  rw [classes_setClasses_eq]
  exact mem_classTokens_joinTokens h hmem

end Attributes

end MarkupTidy
