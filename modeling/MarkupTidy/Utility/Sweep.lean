import MarkupTidy.Markup.Node
import MarkupTidy.Utility.Resolution

/-! # The sweep over class attributes in source text

Markup inside an expression is carried through the tree as source, so its class attributes are
seen only in the printed text.  The sweep finds every `className="…"` in a text and resolves the
placeholders in it.

* `ClassPiece`: a text as characters and class attributes; `ClassPiece.join_split`: nothing is
  lost.
* `sweep`: the text with its placeholders resolved, the classes generated on the way, and how many
  placeholders were found and fixed. -/

namespace MarkupTidy

open MarkupTidy.Text

/-- A piece of source text: a character, or the value of a class attribute with its quote. -/
inductive ClassPiece where
  | other (c : Char)
  | classes (quote : Char) (value : List Char)
deriving DecidableEq, Repr

namespace ClassPiece

/-- What a class attribute begins with. -/
def opening : List Char := "className=".toList

/-- The class attribute at the front of a text: its quote, its value on one line, and what
follows. -/
def readAttribute? (cs : List Char) : Option (Char × List Char × List Char) :=
  match afterText? opening cs with
  | some (q :: rest) =>
    if q = '"' || q = '\'' then
      let value := rest.takeWhile fun c => c != q && c != '\n'
      match rest.dropWhile fun c => c != q && c != '\n' with
      | c :: after => if c = q then some (q, value, after) else none
      | [] => none
    else none
  | _ => none

theorem append_of_readAttribute? {cs value after : List Char} {q : Char}
    (h : readAttribute? cs = some (q, value, after)) :
    opening ++ q :: (value ++ q :: after) = cs := by
  unfold readAttribute? at h
  split at h
  · rename_i q' rest hs
    rw [afterText?_eq_some] at hs
    split at h
    · dsimp only at h
      split at h
      · rename_i c tail hd
        split at h
        · rename_i hc
          simp only [Option.some.injEq, Prod.mk.injEq] at h
          obtain ⟨rfl, rfl, rfl⟩ := h
          subst hc
          rw [hs, ← hd, List.takeWhile_append_dropWhile]
        · simp at h
      · simp at h
    · simp at h
  · simp at h

theorem length_lt_of_readAttribute? {cs value after : List Char} {q : Char}
    (h : readAttribute? cs = some (q, value, after)) : after.length < cs.length := by
  have hlen := congrArg List.length (append_of_readAttribute? h)
  simp only [List.length_append, List.length_cons] at hlen
  omega

/-- A text as pieces. -/
def split (cs : List Char) : List ClassPiece :=
  match cs with
  | [] => []
  | c :: rest =>
    match h : readAttribute? (c :: rest) with
    | some (q, value, after) =>
      have := length_lt_of_readAttribute? h
      .classes q value :: split after
    | none => .other c :: split rest
termination_by cs.length
decreasing_by all_goals (simp only [List.length_cons] at *; omega)

/-- The text of a piece. -/
def text : ClassPiece → List Char
  | other c => [c]
  | classes q value => opening ++ q :: (value ++ [q])

/-- The text of pieces. -/
def join (pieces : List ClassPiece) : List Char :=
  pieces.flatMap text

/-- The tokens in a piece. -/
def tokens : ClassPiece → List String
  | other _ => []
  | classes _ value => (words value).map String.ofList

/-- Splitting loses nothing. -/
theorem join_split (cs : List Char) : join (split cs) = cs := by
  fun_induction split cs with
  | case1 => rfl
  | case2 c rest q value after h _ ih =>
    have := append_of_readAttribute? h
    simp only [join, List.flatMap_cons, text] at ih ⊢
    rw [ih]
    simpa using this
  | case3 c rest h ih =>
    simp only [join, List.flatMap_cons, text] at ih ⊢
    rw [ih]
    rfl

end ClassPiece

/-- The number of placeholders in the class attributes of pieces. -/
def countPlaceholders (pieces : List ClassPiece) : Nat :=
  ((pieces.flatMap ClassPiece.tokens).filter isPlaceholder).length

/-- A token after resolution; what is no placeholder stays. -/
def resolvedToken (design : VariableTable) (token : List Char) : List Char :=
  match resolveToken? design (String.ofList token) with
  | some r => (r.token (String.ofList token)).toList
  | none => token

/-- A piece with its placeholders resolved; tokens are what stands between single spaces. -/
def ClassPiece.resolve (design : VariableTable) : ClassPiece → ClassPiece
  | other c => other c
  | classes q value =>
    classes q (List.intercalate [' '] ((splitOn ' ' value).map (resolvedToken design)))

/-- The classes that the placeholders of a piece call for, in order. -/
def ClassPiece.entries (design : VariableTable) : ClassPiece → List ClassEntry
  | other _ => []
  | classes _ value =>
    (splitOn ' ' value).filterMap fun token =>
      (resolveToken? design (String.ofList token)).bind Resolution.entry?

/-- The outcome of a sweep.  The number of placeholders fixed is the number found less the number
left over. -/
structure Sweep where
  code : List Char
  table : ClassTable
  found : Nat
  fixed : Int
  notices : List Notice

/-- Whether a sweep fixed anything. -/
def Sweep.intervened (s : Sweep) : Bool :=
  0 < s.fixed

/-- Resolves the placeholders in the class attributes of a text. -/
def sweep (design : VariableTable) (table : ClassTable) (code : List Char) : Sweep :=
  let pieces := ClassPiece.split code
  let found := countPlaceholders pieces
  if found = 0 then ⟨code, table, 0, 0, []⟩
  else
    let swept := ClassPiece.join (pieces.map (·.resolve design))
    let fixed : Int := found - countPlaceholders (ClassPiece.split swept)
    let (table, conflicts) := table.registerAll (pieces.flatMap (·.entries design))
    ⟨swept, table, found, fixed,
      conflicts ++ if 0 < fixed then [.placeholdersSwept fixed.toNat found] else []⟩

end MarkupTidy
