import MarkupTidy.Markup.Node
import MarkupTidy.Markup.Style.Reader
import MarkupTidy.Markup.Verbatim

/-! # Tags

What stands between the angle brackets: a name, attributes, and the end of the tag.

* `ScanError`: the ways in which source fails to be markup; `ScanFault` adds the place.
* `readAttributes`, `readOpening`, `readClosing`: the parts of a tag, each with the fact that it
  leaves less than it was given. -/

namespace MarkupTidy

/-- The ways in which source fails to be markup. -/
inductive ScanError where
  | tagNameExpected
  | unexpectedInTag
  | valueExpected
  | unterminatedExpression
  | strayBrace
  | fragmentNotClosed
  | closingNameExpected
  | closingTagNotEnded
  | unexpectedEnd
deriving DecidableEq, Repr

/-- The wording of a scan error. -/
def ScanError.message : ScanError → String
  | tagNameExpected => "Expected a tag name"
  | unexpectedInTag => "Unexpected character in tag"
  | valueExpected => "Expected a quoted or \x7bbraced\x7d attribute value"
  | unterminatedExpression => "Unterminated \x7bexpression\x7d"
  | strayBrace => "Unexpected '\x7d' in JSX text"
  | fragmentNotClosed => "Expected </> to close the fragment"
  | closingNameExpected => "Expected a closing tag name"
  | closingTagNotEnded => "Expected '>' to end the closing tag"
  | unexpectedEnd => "Unexpected end of input inside an element"

/-- A scan error and the number of characters from its place to the end of the source. -/
structure ScanFault where
  error : ScanError
  remaining : Nat
deriving DecidableEq, Repr

namespace Markup

open MarkupTidy.Text

/-- A text in single or double quotes at the front of a text: its inside, and what follows. -/
def readQuotedValue? : List Char → Option (List Char × List Char)
  | [] => none
  | q :: rest =>
    if q = '"' || q = '\'' then
      match rest.dropWhile (· ≠ q) with
      | [] => none
      | _ :: after => some (rest.takeWhile (· ≠ q), after)
    else none

/-- The value of an attribute written in braces; a `style` that is an object literal becomes an
inline style. -/
def expressionValue (name : String) (source : List Char) : AttributeValue :=
  if name = "style" then
    match Style.read? source with
    | some s => .style s
    | none => .expression (String.ofList source)
  else .expression (String.ofList source)

/-- The value of a named attribute, from the text after its name.  Without an equals sign the
attribute is a flag and nothing is read. -/
def readValue (name : String) (cs : List Char) : Except ScanFault (AttributeValue × List Char) :=
  match trimLeft cs with
  | '=' :: rest =>
    match trimLeft rest with
    | '\x7b' :: body =>
      match readExpression? body with
      | some (source, after) => .ok (expressionValue name source, after)
      | none => .error ⟨.unterminatedExpression, body.length + 1⟩
    | start =>
      match readQuotedValue? start with
      | some (value, after) => .ok (.text (String.ofList value), after)
      | none => .error ⟨.valueExpected, start.length⟩
  | _ => .ok (.flag, cs)

theorem length_lt_of_readQuotedValue? {cs value after : List Char}
    (h : readQuotedValue? cs = some (value, after)) : after.length < cs.length := by
  cases cs with
  | nil => simp [readQuotedValue?] at h
  | cons q rest =>
    simp only [readQuotedValue?] at h
    split at h
    · have hle := (List.dropWhile_suffix (· ≠ q) (l := rest)).length_le
      split at h
      · simp at h
      · rename_i heq
        simp only [Option.some.injEq, Prod.mk.injEq] at h
        rw [heq] at hle
        simp only [List.length_cons] at hle ⊢
        rw [← h.2]
        omega
    · simp at h

theorem length_le_of_readValue {name : String} {cs after : List Char} {value : AttributeValue}
    (h : readValue name cs = .ok (value, after)) : after.length ≤ cs.length := by
  have hle := length_trimLeft_le cs
  unfold readValue at h
  split at h
  · rename_i rest heq
    have hle' := length_trimLeft_le rest
    rw [heq] at hle
    simp only [List.length_cons] at hle
    split at h
    · rename_i body heq'
      rw [heq'] at hle'
      simp only [List.length_cons] at hle'
      split at h
      · rename_i hx
        have := readExpression?_length_lt hx
        simp only [Except.ok.injEq, Prod.mk.injEq] at h
        rw [← h.2]
        omega
      · simp at h
    · split at h
      · rename_i hx
        have := length_lt_of_readQuotedValue? hx
        simp only [Except.ok.injEq, Prod.mk.injEq] at h
        rw [← h.2]
        omega
      · simp at h
  · simp only [Except.ok.injEq, Prod.mk.injEq] at h
    exact Nat.le_of_eq (by rw [h.2])

/-- The attributes of a tag, whether the tag closes itself, and what follows the tag. -/
def readAttributes (cs : List Char) : Except ScanFault (Attributes × Bool × List Char) :=
  match hs : trimLeft cs with
  | '/' :: '>' :: rest => .ok ([], true, rest)
  | '>' :: rest => .ok ([], false, rest)
  | '\x7b' :: body =>
    match hx : readExpression? body with
    | none => .error ⟨.unterminatedExpression, body.length + 1⟩
    | some (source, after) =>
      have : after.length < cs.length := by
        have hle := length_trimLeft_le cs
        have := readExpression?_length_lt hx
        rw [hs] at hle
        simp only [List.length_cons] at hle
        omega
      match readAttributes after with
      | .error fault => .error fault
      | .ok (attributes, closed, rest) =>
        .ok (⟨"", .expression (String.ofList source)⟩ :: attributes, closed, rest)
  | start =>
    match hn : Name.read? start with
    | none => .error ⟨.unexpectedInTag, start.length⟩
    | some (name, afterName) =>
      match hv : readValue (String.ofList name) afterName with
      | .error fault => .error fault
      | .ok (value, after) =>
        have : after.length < cs.length := by
          have hle := length_trimLeft_le cs
          have := Name.length_lt_of_read? hn
          have := length_le_of_readValue hv
          rw [hs] at hle
          omega
        match readAttributes after with
        | .error fault => .error fault
        | .ok (attributes, closed, rest) =>
          .ok (⟨String.ofList name, value⟩ :: attributes, closed, rest)
termination_by cs.length

theorem length_lt_of_readAttributes {cs rest : List Char} {attributes : Attributes} {closed : Bool}
    (h : readAttributes cs = .ok (attributes, closed, rest)) : rest.length < cs.length := by
  fun_induction readAttributes cs generalizing attributes closed rest with
  | case1 cs end' hs | case2 cs end' hs =>
    have hle := length_trimLeft_le cs
    rw [hs] at hle
    simp only [Except.ok.injEq, Prod.mk.injEq] at h
    simp only [List.length_cons, h.2.2] at hle
    omega
  | case3 | case4 | case6 | case7 | case8 => simp at h
  | case5 _ _ _ _ _ _ hlt _ _ _ hmore ih | case9 _ _ _ _ _ _ _ _ _ hmore _ _ _ _ hlt ih =>
    simp only [Except.ok.injEq, Prod.mk.injEq] at h
    rw [← h.2.2]
    exact Nat.lt_trans (ih hmore) hlt

/-- An opening tag whose angle bracket has been read. -/
structure Opening where
  /-- The name, empty for a fragment. -/
  tag : String
  attributes : Attributes
  /-- Whether the tag closes itself. -/
  closed : Bool

/-- An opening tag whose angle bracket has been read, and what follows it. -/
def readOpening (cs : List Char) : Except ScanFault (Opening × List Char) :=
  match cs with
  | '>' :: rest => .ok (⟨"", [], false⟩, rest)
  | _ =>
    let start := trimLeft cs
    match Name.read? start with
    | none => .error ⟨.tagNameExpected, start.length⟩
    | some (name, afterName) =>
      match readAttributes afterName with
      | .error fault => .error fault
      | .ok (attributes, closed, rest) => .ok (⟨String.ofList name, attributes, closed⟩, rest)

theorem length_lt_of_readOpening {cs rest : List Char} {opening : Opening}
    (h : readOpening cs = .ok (opening, rest)) : rest.length < cs.length := by
  unfold readOpening at h
  split at h
  · simp only [Except.ok.injEq, Prod.mk.injEq] at h
    simp [← h.2]
  · have hle := length_trimLeft_le cs
    dsimp only at h
    split at h
    · simp at h
    · rename_i hn
      have := Name.length_lt_of_read? hn
      split at h
      · simp at h
      · rename_i hr
        have := length_lt_of_readAttributes hr
        simp only [Except.ok.injEq, Prod.mk.injEq] at h
        rw [← h.2]
        omega

/-- The name in a closing tag and the number of characters from the name to the end. -/
structure ClosingName where
  name : String
  remaining : Nat
deriving DecidableEq, Repr

/-- The closing tag of a named element, after its slash, and what follows it. -/
def readClosing (cs : List Char) : Except ScanFault (ClosingName × List Char) :=
  let start := trimLeft cs
  match Name.read? start with
  | none => .error ⟨.closingNameExpected, start.length⟩
  | some (name, afterName) =>
    match trimLeft afterName with
    | '>' :: rest => .ok (⟨String.ofList name, start.length⟩, rest)
    | other => .error ⟨.closingTagNotEnded, other.length⟩

theorem length_lt_of_readClosing {cs rest : List Char} {closing : ClosingName}
    (h : readClosing cs = .ok (closing, rest)) : rest.length < cs.length := by
  unfold readClosing at h
  have hle := length_trimLeft_le cs
  dsimp only at h
  split at h
  · simp at h
  · rename_i afterName hn
    have := Name.length_lt_of_read? hn
    have hle' := length_trimLeft_le afterName
    split at h
    · rename_i heq
      rw [heq] at hle'
      simp only [List.length_cons] at hle'
      simp only [Except.ok.injEq, Prod.mk.injEq] at h
      rw [← h.2]
      omega
    · simp at h

end Markup

end MarkupTidy
