import MarkupTidy.Pass.ClassCleanup
import MarkupTidy.Pass.ClassOptimizer
import MarkupTidy.Pass.CssVariables
import MarkupTidy.Pass.FontDetection
import MarkupTidy.Pass.PostFixes
import MarkupTidy.Pass.VectorComposites
import MarkupTidy.Pass.VectorWrappers

/-! # The built-in passes -/

namespace MarkupTidy

/-- The built-in passes in their usual order. -/
def builtinPasses : List Pass :=
  [FontDetection.pass, ClassCleanup.pass, VectorComposites.pass, VectorWrappers.pass,
    PostFixes.pass, CssVariables.pass, ClassOptimizer.pass]

/-- The built-in pass of a name. -/
def builtinPass? (name : String) : Option Pass :=
  builtinPasses.find? (·.name = name)

end MarkupTidy
