import MarkupTidy.Pass.Basic
import MarkupTidy.Utility.Resolution

/-! # Resolving variables

Placeholders among class tokens are resolved, border shorthands become generated classes, and the
references inside inline styles get their clean form. -/

namespace MarkupTidy.CssVariables

/-- What becomes of a class token. -/
inductive TokenChange where
  /-- The token is neither a border shorthand nor a placeholder. -/
  | plain
  | border (entry : ClassEntry)
  | placeholder (resolution : Resolution)
deriving DecidableEq, Repr

namespace TokenChange

/-- What becomes of a class token; a border shorthand is looked for first. -/
def of (design : VariableTable) (token : String) : TokenChange :=
  match borderClass? token with
  | some entry => .border entry
  | none =>
    match resolveToken? design token with
    | some resolution => .placeholder resolution
    | none => .plain

/-- The token that takes the place of another. -/
def token (written : String) : TokenChange → String
  | plain => written
  | border entry => entry.name
  | placeholder resolution => resolution.token written

/-- The generated class that a change calls for. -/
def entry? : TokenChange → Option ClassEntry
  | plain => none
  | border entry => some entry
  | placeholder resolution => resolution.entry?

/-- The counter of a change. -/
def counter? : TokenChange → Option String
  | plain => none
  | border _ => some "bordersFixed"
  | placeholder (.canonical _) => some "varsConverted"
  | placeholder (.synthesized _) => some "varsConverted"
  | placeholder (.fallback _) => some "fallbacksInlined"
  | placeholder .unrecognized => some "placeholdersUnrecognized"

end TokenChange

/-- The state of the walk. -/
structure State where
  classes : ClassTable
  notices : List Notice
  counters : Counters

/-- Counts a change and registers the class that it calls for. -/
def State.note (st : State) (change : TokenChange) : State :=
  { classes := change.entry?.elim st.classes st.classes.register
    notices := st.notices ++ (change.entry?.bind st.classes.conflict?).toList
    counters := change.counter?.elim st.counters st.counters.count }

/-- Resolves the class tokens of an element. -/
def resolveClasses (design : VariableTable) (st : State) (attributes : Attributes) :
    State × Attributes :=
  if attributes.hasStaticClasses then
    let tokens := attributes.classes
    let resolved := tokens.map fun t => (TokenChange.of design t).token t
    ((tokens.map (TokenChange.of design)).foldl State.note st,
      if resolved = tokens then attributes else attributes.setClasses resolved)
  else (st, attributes)

/-- A style value with its references in clean form. -/
def normalizeValue : StyleValue → StyleValue
  | .text value => .text (String.ofList (normalizeReferences value.toList))
  | value => value

/-- A style with the references in all its values in clean form. -/
def normalizeStyle (s : Style) : Style :=
  ⟨s.entries.map fun (key, value) => (key, normalizeValue value)⟩

/-- The number of values that have references in another form. -/
def countUnclean (s : Style) : Nat :=
  (s.entries.filter fun (_, value) => normalizeValue value ≠ value).length

/-- Cleans the references in the inline style of an element. -/
def cleanStyle (counters : Counters) (attributes : Attributes) : Counters × Attributes :=
  match attributes.style? with
  | none => (counters, attributes)
  | some s =>
    if countUnclean s = 0 then (counters, attributes)
    else
      (counters.add "styleVarsNormalized" (countUnclean s),
        attributes.setStyle (normalizeStyle s))

/-- Resolves the variables of an element. -/
def visit (design : VariableTable) (st : State) (e : Element) : Visit State :=
  let (st, attributes) := resolveClasses design st e.attributes
  let (counters, attributes) := cleanStyle st.counters attributes
  .change { st with counters } attributes

/-- The pass that resolves variables. -/
def pass : Pass where
  name := "css-vars"
  priority := 30
  mustPrecede := ["tailwind-optimizer"]
  run d c :=
    let (document, w) := d.walk (visit c.design) ⟨c.classes, [], []⟩
    { document
      context := { c with classes := w.state.classes }
      result := w.result State.counters
      notices := w.state.notices }

end MarkupTidy.CssVariables
