import MarkupTidy.OrderedMap

/-! # Settings

Settings say which passes run and with what priority, and whether a run goes on after a pass has
failed.  A pass that the settings do not name runs with its own priority.

* `Settings.forPass`: the settings of a pass.
* `Settings.override`: settings with other wishes put on top. -/

namespace MarkupTidy

/-- The settings of a pass. -/
structure PassSettings where
  enabled : Bool
  /-- The priority that takes the place of the pass's own. -/
  priority? : Option Int
deriving DecidableEq, Repr

/-- The settings of a pass that nothing is said about. -/
def PassSettings.usual : PassSettings := ⟨true, none⟩

/-- The settings of a run. -/
structure Settings where
  passes : OrderedMap String PassSettings
  /-- Whether a run goes on after a pass has failed. -/
  continueOnError : Bool
deriving DecidableEq, Repr

/-- Wishes that are put on top of settings. -/
structure Overrides where
  disable : List String
  priorities : OrderedMap String Int
  continue? : Option Bool
deriving DecidableEq, Repr

namespace Settings

/-- The settings that say nothing. -/
def usual : Settings := ⟨[], false⟩

/-- The settings of a pass. -/
def forPass (s : Settings) (name : String) : PassSettings :=
  (s.passes.get? name).getD .usual

/-- Settings with a pass turned off. -/
def disable (s : Settings) (name : String) : Settings :=
  { s with passes := s.passes.insert name { s.forPass name with enabled := false } }

/-- Settings with another priority for a pass. -/
def prioritize (s : Settings) (name : String) (priority : Int) : Settings :=
  { s with passes := s.passes.insert name { s.forPass name with priority? := some priority } }

/-- Settings with wishes put on top. -/
def override (s : Settings) (o : Overrides) : Settings :=
  let s := o.disable.foldl disable s
  let s := o.priorities.foldl (fun s (name, priority) => s.prioritize name priority) s
  { s with continueOnError := o.continue?.getD s.continueOnError }

theorem forPass_disable_self (s : Settings) (name : String) :
    (s.disable name).forPass name = { s.forPass name with enabled := false } := by
  simp [disable, forPass, OrderedMap.get?_insert_self]

theorem forPass_prioritize_self (s : Settings) (name : String) (priority : Int) :
    (s.prioritize name priority).forPass name
      = { s.forPass name with priority? := some priority } := by
  simp [prioritize, forPass, OrderedMap.get?_insert_self]

end Settings

end MarkupTidy
