import MarkupTidy.Pass.Builtin
import MarkupTidy.Plan.Settings

/-! # Plans

Passes are registered by name and planned by settings: a plan holds every registered pass once, by
ascending priority, and passes of one priority in the order of their registration.

* `Registry.register`: a pass takes the place of one with its name.
* `Registry.plan`: the plan for settings.
* `Plan.position?`: when a pass runs, counted among those that run. -/

namespace MarkupTidy

/-- Passes by name, in order of registration. -/
structure Registry where
  passes : OrderedMap String Pass

/-- A pass with its place in a plan. -/
structure PlannedPass where
  pass : Pass
  priority : Int
  enabled : Bool

namespace PlannedPass

/-- The name of a planned pass. -/
def name (p : PlannedPass) : String :=
  p.pass.name

end PlannedPass

/-- All registered passes in the order in which they run. -/
structure Plan where
  entries : List PlannedPass
  /-- Names in the settings under which no pass is registered. -/
  unknown : List String

namespace Registry

/-- No pass is registered. -/
def empty : Registry := ⟨[]⟩

/-- Registers a pass, in the place of one with its name. -/
def register (r : Registry) (p : Pass) : Registry :=
  ⟨r.passes.insert p.name p⟩

/-- Passes registered in turn. -/
def ofPasses (passes : List Pass) : Registry :=
  passes.foldl register empty

/-- The built-in passes are registered. -/
def builtin : Registry :=
  ofPasses builtinPasses

/-- The pass of a name. -/
def get? (r : Registry) (name : String) : Option Pass :=
  r.passes.get? name

/-- The names in order of registration. -/
def names (r : Registry) : List String :=
  r.passes.keys

/-- A pass as settings plan it. -/
def planPass (settings : Settings) (p : Pass) : PlannedPass :=
  let s := settings.forPass p.name
  ⟨p, s.priority?.getD p.priority, s.enabled⟩

/-- The plan of the registered passes. -/
def plan (r : Registry) (settings : Settings) : Plan where
  entries := (r.passes.map fun (_, p) => planPass settings p).mergeSort
    fun a b => a.priority ≤ b.priority
  unknown := settings.passes.keys.filter fun name => !r.passes.has name

end Registry

namespace Plan

/-- The passes that run, in order. -/
def enabled (p : Plan) : List PlannedPass :=
  p.entries.filter (·.enabled)

/-- The planned pass of a name. -/
def get? (p : Plan) (name : String) : Option PlannedPass :=
  p.entries.find? (·.name = name)

/-- The index of a pass among those that run. -/
def position? (p : Plan) (name : String) : Option Nat :=
  p.enabled.findIdx? (·.name = name)

theorem entries_plan_perm (r : Registry) (settings : Settings) :
    (r.plan settings).entries.Perm (r.passes.map fun (_, p) => Registry.planPass settings p) :=
  List.mergeSort_perm _ _

end Plan

end MarkupTidy
