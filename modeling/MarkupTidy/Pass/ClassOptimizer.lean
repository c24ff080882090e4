import MarkupTidy.Pass.Basic
import MarkupTidy.Utility.Scale

/-! # Optimizing classes

Arbitrary pixel values become the standard steps that stand for them, equal width and height become
one size, and repetitions are dropped. -/

namespace MarkupTidy.ClassOptimizer

/-- Tokens in standard steps. -/
def optimize (tokens : List String) : List String :=
  mergeSquare (tokens.map optimizeToken)

/-- Optimizes the classes of an element. -/
def visit (counters : Counters) (e : Element) : Visit Counters :=
  if e.attributes.hasStaticClasses then
    let tokens := e.attributes.classes
    let optimized := optimize tokens
    let counters := if optimized = tokens then counters else counters.count "classesOptimized"
    let deduped := dedupe optimized
    let counters :=
      if deduped.length = optimized.length then counters else counters.count "duplicatesRemoved"
    .change counters (if deduped = tokens then e.attributes else e.attributes.setClasses deduped)
  else .keep counters e

/-- The pass that optimizes classes. -/
def pass : Pass where
  name := "tailwind-optimizer"
  priority := 40
  mustPrecede := []
  run d c :=
    let (document, w) := d.walk visit []
    { document, context := c, result := w.result id, notices := [] }

end MarkupTidy.ClassOptimizer
