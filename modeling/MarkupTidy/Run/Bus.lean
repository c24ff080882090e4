import MarkupTidy.Run.Stats

/-! # Events and listeners

The stages of a run as it tells them to those who listen.  Listeners are told of an event one after
the other: first those that hear every event, then those that hear its kind, each group in the order
in which it came.  A listener that fails keeps the event from those after it.

* `Event`: a stage of a run; `Event.kind`: its kind.
* `Bus.subscribe`, `Bus.onAll`: a bus with one more listener.
* `Bus.emit`, `Bus.emitAll`: tells the listeners of events. -/

namespace MarkupTidy

/-- A stage of a run. -/
inductive Event where
  | runStarted (source : String) (passes : List String)
  | runCompleted (source : String) (changes : Int)
  | runFailed (source error : String)
  | passStarted (pass : String) (priority : Int)
  | passCompleted (pass : String) (counters : Counters)
  | passFailed (pass error : String) (continued : Bool)
  | swept (found : Nat) (fixed : Int)
deriving DecidableEq, Repr

/-- The kinds of events. -/
inductive EventKind where
  | runStarted
  | runCompleted
  | runFailed
  | passStarted
  | passCompleted
  | passFailed
  | swept
deriving DecidableEq, Repr

/-- The kind of an event. -/
def Event.kind : Event → EventKind
  | runStarted .. => .runStarted
  | runCompleted .. => .runCompleted
  | runFailed .. => .runFailed
  | passStarted .. => .passStarted
  | passCompleted .. => .passCompleted
  | passFailed .. => .passFailed
  | swept .. => .swept

/-- A listener changes the state that it shares with the others, and may fail. -/
structure Listener (σ ε : Type) where
  /-- The kind of event that is heard; without one, every event is. -/
  kind? : Option EventKind
  hear : Event → σ → σ × Option ε

/-- Listeners in the order in which they came. -/
structure Bus (σ ε : Type) where
  listeners : List (Listener σ ε)

namespace Bus

variable {σ ε : Type}

/-- The bus that nobody listens to. -/
def empty : Bus σ ε := ⟨[]⟩

/-- A bus with one more listener for a kind of event. -/
def subscribe (b : Bus σ ε) (kind : EventKind) (hear : Event → σ → σ × Option ε) : Bus σ ε :=
  ⟨b.listeners ++ [⟨some kind, hear⟩]⟩

/-- A bus with one more listener for all events. -/
def onAll (b : Bus σ ε) (hear : Event → σ → σ × Option ε) : Bus σ ε :=
  ⟨b.listeners ++ [⟨none, hear⟩]⟩

/-- The listeners to an event, in the order in which they are told. -/
def audience (b : Bus σ ε) (event : Event) : List (Listener σ ε) :=
  b.listeners.filter (·.kind? = none) ++ b.listeners.filter (·.kind? = some event.kind)

/-- Tells listeners of an event until one fails. -/
def tell (event : Event) : List (Listener σ ε) → σ → σ × Option ε
  | [], state => (state, none)
  | l :: rest, state =>
    match l.hear event state with
    | (state, none) => tell event rest state
    | (state, some failure) => (state, some failure)

/-- Tells all listeners of an event. -/
def emit (b : Bus σ ε) (event : Event) (state : σ) : σ × Option ε :=
  tell event (b.audience event) state

/-- Tells all listeners of events until one fails. -/
def emitAll (b : Bus σ ε) : List Event → σ → σ × Option ε
  | [], state => (state, none)
  | event :: rest, state =>
    match b.emit event state with
    | (state, none) => emitAll b rest state
    | (state, some failure) => (state, some failure)

end Bus

end MarkupTidy
