import MarkupTidy.Sheet.ClassTable
import MarkupTidy.Text.Digit
import MarkupTidy.Utility.Placeholder
import MarkupTidy.Variable.Table

/-! # Resolving placeholders

A placeholder becomes a standard utility where the value of its variable has one, a generated
class where its utility sets known properties, or else its own fallback as an arbitrary value.

* `Placeholder.resolve`: what becomes of a placeholder.
* `resolveToken?`: the same for a token, no answer where the token is no placeholder.
* `borderClass?`: the generated class of a border shorthand.
* `normalizeReferences`: the references inside the value of an inline style in clean form.

None of these depends on the classes generated so far; registering a class is a step of its own. -/

namespace MarkupTidy

open MarkupTidy.Text MarkupTidy.Variable

/-- The properties that a utility with an arbitrary value sets. -/
def utilityProperties : List (String × List String) := [
  ("p", ["padding"]), ("pt", ["padding-top"]), ("pr", ["padding-right"]),
  ("pb", ["padding-bottom"]), ("pl", ["padding-left"]), ("px", ["padding-left", "padding-right"]),
  ("py", ["padding-top", "padding-bottom"]), ("m", ["margin"]), ("mt", ["margin-top"]),
  ("mr", ["margin-right"]), ("mb", ["margin-bottom"]), ("ml", ["margin-left"]),
  ("mx", ["margin-left", "margin-right"]), ("my", ["margin-top", "margin-bottom"]),
  ("gap", ["gap"]), ("gap-x", ["column-gap"]), ("gap-y", ["row-gap"]),
  ("rounded", ["border-radius"]), ("bg", ["background-color"]), ("w", ["width"]),
  ("h", ["height"]), ("size", ["width", "height"]), ("min-w", ["min-width"]),
  ("max-w", ["max-width"]), ("min-h", ["min-height"]), ("max-h", ["max-height"]),
  ("top", ["top"]), ("right", ["right"]), ("bottom", ["bottom"]), ("left", ["left"]),
  ("inset", ["inset"]), ("leading", ["line-height"]), ("tracking", ["letter-spacing"]),
  ("opacity", ["opacity"]), ("fill", ["fill"]), ("stroke", ["stroke"])]

/-- The utilities that take a colour. -/
def colorUtilities : List String :=
  ["bg", "text", "border", "fill", "stroke", "outline", "decoration"]

/-- Values that have a standard colour name, in lower case and without spaces. -/
def colorKeywords : List (String × String) := [
  ("#fff", "white"), ("#ffffff", "white"), ("#ffffffff", "white"), ("white", "white"),
  ("#000", "black"), ("#000000", "black"), ("#000000ff", "black"), ("black", "black"),
  ("transparent", "transparent"), ("#00000000", "transparent"), ("rgba(0,0,0,0)", "transparent")]

/-- The units of a length. -/
def lengthUnits : List (List Char) :=
  ["px".toList, "rem".toList, "em".toList, "%".toList, "vh".toList, "vw".toList]

/-- An optional minus sign, digits and points, and a unit or none; one line feed may follow. -/
def isLength (cs : List Char) : Bool :=
  let source := Markup.dropFinalNewline (cs.filter (· ≠ ' '))
  let number := match source with | '-' :: rest => rest | _ => source
  let isNumberChar (c : Char) : Bool := isDecimalDigit c || c == '.'
  let unit := number.dropWhile isNumberChar
  !(number.takeWhile isNumberChar).isEmpty && (unit.isEmpty || lengthUnits.contains unit)

/-- What a utility with a placeholder sets: the name that its classes begin with, whether the value
is a length, and the properties. -/
structure UtilityBinding where
  classBase : String
  isLength : Bool
  properties : List String
deriving DecidableEq, Repr

/-- The binding of a utility; text and border take a colour or a length, by the declared kind or
else by the fallback. -/
def utilityBinding? (utility : String) (kind? : Option ValueKind) (fallback? : Option (List Char)) :
    Option UtilityBinding :=
  let length := kind? = some .length
  let length' := length || (kind?.isNone && fallback?.any isLength)
  if utility = "text" then
    some (if length' then ⟨"text-size", true, ["font-size"]⟩ else ⟨"text", false, ["color"]⟩)
  else if utility = "border" then
    some (if length' then ⟨"border-w", true, ["border-width"]⟩
      else ⟨"border", false, ["border-color"]⟩)
  else (utilityProperties.lookup utility).map fun properties => ⟨utility, length, properties⟩

/-- What becomes of a placeholder. -/
inductive Resolution where
  /-- A standard utility. -/
  | canonical (token : String)
  /-- A generated class. -/
  | synthesized (entry : ClassEntry)
  /-- The fallback as an arbitrary value. -/
  | fallback (token : String)
  /-- Nothing is known about the placeholder. -/
  | unrecognized
deriving DecidableEq, Repr

namespace Resolution

/-- The token that takes the place of a placeholder. -/
def token (written : String) : Resolution → String
  | canonical t => t
  | synthesized e => e.name
  | fallback t => t
  | unrecognized => written

/-- The generated class that a placeholder calls for. -/
def entry? : Resolution → Option ClassEntry
  | synthesized e => some e
  | _ => none

end Resolution

/-- The literal that a variable stands for: its own value, none for a typeface, the fallback where
the variable is unknown. -/
def literalValue? (design : VariableTable) (property : List Char)
    (fallback? : Option (List Char)) : Option (List Char) :=
  match design.find? property with
  | some (.literal value) => some value.toList
  | some (.font _) => none
  | none => fallback?

/-- The standard name of a colour value. -/
def colorKeyword? (value : List Char) : Option String :=
  colorKeywords.lookup (String.ofList (lowercase (value.filter (· ≠ ' '))))

namespace Placeholder

/-- The fallback as an arbitrary value, if there is one. -/
def inlineFallback (p : Placeholder) : Resolution :=
  match p.fallback? with
  | none => .unrecognized
  | some fallback =>
    .fallback (String.ofList (p.variants ++ p.utility ++ '-' :: '[' :: (fallback ++ [']'])))

/-- The generated class that binds a placeholder's properties to its variable. -/
def boundClass (p : Placeholder) (binding : UtilityBinding) (name : List Char) : ClassEntry where
  name := binding.classBase ++ "-" ++ String.ofList name
  properties := binding.properties
  customProperty? := some (String.ofList ('-' :: '-' :: name))
  fallback? := p.fallback?.map String.ofList
  value? := none

/-- What becomes of a placeholder: variants and unknown utilities leave only the fallback, a colour
with a standard name becomes that name, and everything else a generated class. -/
def resolve (design : VariableTable) (p : Placeholder) : Resolution :=
  let name := cleanReference p.reference
  if name.isEmpty then .unrecognized
  else
    let utility := String.ofList p.utility
    let binding? :=
      if p.variants.isEmpty then utilityBinding? utility p.kind? p.fallback? else none
    match binding? with
    | none => p.inlineFallback
    | some binding =>
      let keyword? :=
        if colorUtilities.contains utility && !binding.isLength then
          colorKeyword? ((literalValue? design ('-' :: '-' :: name) p.fallback?).getD [])
        else none
      match keyword? with
      | some keyword => .canonical (utility ++ "-" ++ keyword)
      | none => .synthesized (p.boundClass binding name)

end Placeholder

/-- What becomes of a class token; no answer where it is no placeholder. -/
def resolveToken? (design : VariableTable) (token : String) : Option Resolution :=
  (Placeholder.read? token.toList).map (·.resolve design)

/-- How a width is written in a class name. -/
def widthName (width : List Char) : List Char :=
  (replaceText ['p', 'x'] [] width).flatMap fun c => if c = '.' then ['d', 'o', 't'] else [c]

/-- The generated class of a border shorthand. -/
def borderClass? (token : String) : Option ClassEntry :=
  (BorderShorthand.read? token.toList).map fun widths =>
    { name := "border-w-" ++ String.ofList (List.intercalate ['-'] (widths.map widthName))
      properties := ["border-width"]
      customProperty? := none
      fallback? := none
      value? := some (String.ofList (List.intercalate [' '] widths)) }

/-- A character of the name of a reference in an inline style. -/
def isReferenceChar (c : Char) : Bool :=
  c != ',' && c != ')' && !isBlank c

/-- The reference that follows `var(`, and what follows the reference. -/
def readReference? (cs : List Char) : Option (List Char × List Char) := do
  let rest ← afterText? "var(".toList cs
  let start := trimLeft rest
  let name ← afterText? ['-', '-'] start
  if (name.takeWhile isReferenceChar).isEmpty then none
  else some (start.takeWhile isReferenceChar, start.dropWhile isReferenceChar)

theorem length_lt_of_readReference? {cs reference rest : List Char}
    (h : readReference? cs = some (reference, rest)) : rest.length < cs.length := by
  simp only [readReference?, Option.bind_eq_bind, Option.bind_eq_some_iff] at h
  obtain ⟨tail, htail, name, _, h⟩ := h
  rw [afterText?_eq_some] at htail
  split at h
  · simp at h
  · simp only [Option.some.injEq, Prod.mk.injEq] at h
    have h1 := (List.dropWhile_suffix isReferenceChar (l := trimLeft tail)).length_le
    have h2 := length_trimLeft_le tail
    rw [← h.2, htail]
    simp only [List.length_append, String.reduceToList, List.length_cons, List.length_nil]
    omega

/-- The value of an inline style with its references in clean form. -/
def normalizeReferences (cs : List Char) : List Char :=
  match cs with
  | [] => []
  | c :: rest =>
    match h : readReference? (c :: rest) with
    | some (reference, after) =>
      have := length_lt_of_readReference? h
      "var(--".toList ++ cleanReference reference ++ normalizeReferences after
    | none => c :: normalizeReferences rest
termination_by cs.length
decreasing_by all_goals (simp only [List.length_cons] at *; omega)

end MarkupTidy
