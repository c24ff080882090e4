import MarkupTidy.Pass.Basic
import MarkupTidy.Utility.Cleanup

/-! # Cleaning classes

Takes the generator's artifacts out of class lists, gives text sizes their standard names, and adds
what the layout lacks: containment of overflow on the first named container, and full width on
elements that grow from nothing.  Section comments are noted on the way. -/

namespace MarkupTidy.ClassCleanup

/-- The class that contains overflow. -/
def overflowClass : String := "overflow-x-hidden"

/-- The state of the walk. -/
structure State where
  rootContained : Bool
  sections : List String
  counters : Counters

/-- The section that a child announces. -/
def sectionOf? : Node → Option String
  | .text value => sectionName? (renderedText value.toList)
  | .expression source => sectionName? source.toList
  | .element _ => none

/-- Notes the sections that the children of an element announce. -/
def State.noteSections (st : State) (children : List Node) : State :=
  children.foldl (fun st child =>
    match sectionOf? child with
    | some name =>
      { st with
        sections := st.sections ++ [name]
        counters := st.counters.count "sectionsDetected" }
    | none => st) st

/-- Whether an element is the container that has to contain overflow. -/
def isRootContainer (st : State) (e : Element) : Bool :=
  !st.rootContained && e.tag = "div" && e.attributes.has "data-name"

/-- Makes the first named container contain its overflow. -/
def containOverflow (st : State) (e : Element) : State × Attributes :=
  if isRootContainer st e then
    let tokens := e.attributes.classes
    if tokens.contains overflowClass then ({ st with rootContained := true }, e.attributes)
    else
      ({ st with rootContained := true, counters := st.counters.count "overflowAdded" },
        e.attributes.setClasses (tokens ++ [overflowClass]))
  else (st, e.attributes)

/-- Counts a step unless it left its tokens as they were. -/
def countIf (changed : Bool) (key : String) (counters : Counters) : Counters :=
  if changed then counters.count key else counters

/-- Cleans the class list of an element. -/
def cleanTokens (counters : Counters) (tokens : List String) : Counters × List String :=
  let cleaned := stripArtifacts tokens
  let counters := countIf (cleaned ≠ tokens) "classesFixed" counters
  let converted := cleaned.map convertTextSize
  let counters := countIf (converted ≠ cleaned) "textSizesConverted" counters
  if needsFullWidth converted then (counters.count "widthsAdded", converted ++ ["w-full"])
  else (counters, converted)

/-- Cleans an element. -/
def visit (st : State) (e : Element) : Visit State :=
  let st := if e.attributes.has "data-node-id" then
      { st with counters := st.counters.count "nodesAnalyzed" } else st
  let st := st.noteSections e.children
  if e.attributes.hasStaticClasses then
    let (st, attributes) := containOverflow st e
    let tokens := attributes.classes
    let (counters, cleaned) := cleanTokens st.counters tokens
    .change { st with counters }
      (if cleaned = tokens then attributes else attributes.setClasses cleaned)
  else .keep st e

/-- The pass that cleans classes. -/
def pass : Pass where
  name := "class-cleanup"
  priority := 10
  mustPrecede := []
  run d c :=
    let (document, w) := d.walk visit ⟨c.rootContained, c.sections, []⟩
    { document
      context := { c with rootContained := w.state.rootContained, sections := w.state.sections }
      result := w.result State.counters
      notices := [] }

end MarkupTidy.ClassCleanup
