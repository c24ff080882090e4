import MarkupTidy.Text.WordChar

/-! # Identifiers and markup names

* `isIdentifier`: a name that may stand unquoted as a property name.
* `Name.read?`: the longest markup name at the front of a text; besides the characters of an
  identifier it may hold points, colons and hyphens. -/

namespace MarkupTidy.Markup

open MarkupTidy.Text

/-- A character that may begin a name. -/
def isNameStart (c : Char) : Bool :=
  c.isAlpha || c == '_' || c == '$'

/-- A character that may continue an identifier. -/
def isIdentifierChar (c : Char) : Bool :=
  isWordChar c || c == '$'

/-- A character that may continue a markup name. -/
def isNameChar (c : Char) : Bool :=
  isIdentifierChar c || c == '.' || c == ':' || c == '-'

/-- A nonempty identifier. -/
def isIdentifier : List Char → Bool
  | [] => false
  | c :: rest => isNameStart c && rest.all isIdentifierChar

/-- A text without one line feed at its end. -/
def dropFinalNewline (cs : List Char) : List Char :=
  if cs.getLast? = some '\n' then cs.dropLast else cs

theorem dropFinalNewline_of_not_mem {cs : List Char} (h : '\n' ∉ cs) : dropFinalNewline cs = cs :=
  if_neg fun hlast => h (List.mem_of_getLast? hlast)

/-- At most a line feed is taken off. -/
theorem eq_dropFinalNewline_or (cs : List Char) :
    cs = dropFinalNewline cs ∨ cs = dropFinalNewline cs ++ ['\n'] := by
  unfold dropFinalNewline
  split
  · rename_i hlast
    obtain ⟨front, rfl⟩ := List.getLast?_eq_some_iff.1 hlast
    exact .inr (by rw [List.dropLast_concat])
  · exact .inl rfl

theorem mem_dropFinalNewline {cs : List Char} {c : Char} (hc : c ∈ cs) :
    c ∈ dropFinalNewline cs ∨ c = '\n' := by
  obtain h | h := eq_dropFinalNewline_or cs
  · exact .inl (h ▸ hc)
  · rw [h, List.mem_append, List.mem_singleton] at hc
    exact hc

/-- The longest markup name at the front of a text, and what follows it. -/
def Name.read? : List Char → Option (List Char × List Char)
  | [] => none
  | c :: rest =>
    if isNameStart c then some (c :: rest.takeWhile isNameChar, rest.dropWhile isNameChar) else none

theorem Name.append_of_read? {cs name rest : List Char} (h : Name.read? cs = some (name, rest)) :
    name ++ rest = cs := by
  cases cs with
  | nil => simp [Name.read?] at h
  | cons c r =>
    simp only [Name.read?] at h
    split at h
    · simp only [Option.some.injEq, Prod.mk.injEq] at h
      obtain ⟨rfl, rfl⟩ := h
      simp
    · simp at h

theorem Name.ne_nil_of_read? {cs name rest : List Char} (h : Name.read? cs = some (name, rest)) :
    name ≠ [] := by
  cases cs with
  | nil => simp [Name.read?] at h
  | cons c r =>
    simp only [Name.read?] at h
    split at h
    · simp only [Option.some.injEq, Prod.mk.injEq] at h
      obtain ⟨rfl, rfl⟩ := h
      simp
    · simp at h

theorem Name.length_lt_of_read? {cs name rest : List Char} (h : Name.read? cs = some (name, rest)) :
    rest.length < cs.length := by
  have hlen := congrArg List.length (append_of_read? h)
  have hpos := List.length_pos_iff.mpr (ne_nil_of_read? h)
  simp only [List.length_append] at hlen
  omega

end MarkupTidy.Markup
