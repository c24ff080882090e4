import MarkupTidy.Pass.Basic
import MarkupTidy.Utility.FontClass

/-! # Fonts as inline styles

An element with a readable font class gets the typeface as an inline style; properties that it
sets already are kept.  A style expression that cannot be read is layered over the typeface.  The
class itself stays where it is. -/

namespace MarkupTidy.FontDetection

/-- The state of the walk: the typefaces seen, and the counters. -/
structure State where
  fonts : List FontUse
  counters : Counters

/-- The first readable font class among tokens. -/
def firstFont? (tokens : List String) : Option FontClass :=
  tokens.findSome? FontClass.read?

/-- A style with the properties of a typeface that it does not set. -/
def mergeFont (s font : Style) : Style :=
  font.entries.foldl (fun s (key, value) => s.setNew key value) s

/-- Gives an element the typeface of its first readable font class. -/
def visit (st : State) (e : Element) : Visit State :=
  match firstFont? e.attributes.classes with
  | none => .keep st e
  | some font =>
    let seen := { st with fonts := Context.addFont st.fonts (font.family, font.weight) }
    let converted := { seen with counters := seen.counters.count "fontsConverted" }
    match e.attributes.styleOrNew? with
    | some s =>
      let merged := mergeFont s font.style
      if merged = s then .keep seen e else .change converted (e.attributes.setStyle merged)
    | none =>
      match e.attributes.value? "style" with
      | some (.expression source) =>
        .change converted (e.attributes.set "style"
          (.expression (String.ofList (layerStyle source.toList font.style))))
      | _ => .fail seen e .styleWithoutSource

/-- The pass that writes fonts as inline styles. -/
def pass : Pass where
  name := "font-detection"
  priority := 0
  mustPrecede := ["class-cleanup"]
  run d c :=
    let (document, w) := d.walk visit ⟨c.fonts, []⟩
    { document
      context := { c with fonts := w.state.fonts }
      result := w.result State.counters
      notices := [] }

end MarkupTidy.FontDetection
