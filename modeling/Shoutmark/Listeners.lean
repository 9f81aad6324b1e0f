import Shoutmark.Compile

/-! A compiler at work, and who follows it. Diagnostics are collected for the page and go to a sink;
where no sink is given they are lines of the log, as is all else that there is to tell. The log
prints nothing until a verbosity is connected to it. -/

namespace Shoutmark

/-- A line of the log, with the level it was logged at. -/
structure LogLine where
  level : Nat
  text : String
  deriving DecidableEq, Repr

structure Listeners where
  /-- A sink for the diagnostics is given. -/
  sink : Bool
  /-- The verbosity that is connected to the log, if one is. -/
  verbosity : Option Int
  deriving DecidableEq, Repr

namespace Listeners

def nobody : Listeners := ⟨false, none⟩

def prints (l : Listeners) (level : Nat) : Bool :=
  match l.verbosity with
  | some verbosity => level ≤ verbosity
  | none => false

end Listeners

/-- What has reached the listeners: the diagnostics collected for the page at work, what the sink
received and what the log printed. -/
structure Heard where
  collected : List String
  received : List String
  printed : List LogLine
  deriving DecidableEq, Repr

namespace Heard

def nothing : Heard := ⟨[], [], []⟩

def log (l : Listeners) (level : Nat) (text : String) (h : Heard) : Heard :=
  if l.prints level then { h with printed := h.printed ++ [⟨level, text⟩] } else h

/-- Hands a diagnostic to the sink, which is the log if none is given. -/
def emit (l : Listeners) (line : String) (h : Heard) : Heard :=
  if l.sink then { h with received := h.received ++ [line] } else h.log l 1 line

/-- Collects a diagnostic and hands it on. -/
def capture (l : Listeners) (line : String) (h : Heard) : Heard :=
  { h with collected := h.collected ++ [line] }.emit l line

/-- What comes of an event. -/
def hear (l : Listeners) (h : Heard) : Event → Heard
  | .diagnostic d => h.capture l d.message
  | e => h.log l e.level e.message

end Heard

structure Compiler where
  lists : Bool
  listeners : Listeners
  deriving DecidableEq, Repr

namespace Compiler

/-- Compiles a source. The page holds the diagnostics that were collected on the way. -/
def compile (c : Compiler) (source : String) : StateM Heard (Except CompileError Page) := fun h =>
  let run := Shoutmark.compile c.lists source
  let heard := run.events.foldl (Heard.hear c.listeners) { h with collected := [] }
  (run.outcome.map fun page => { page with diagnostics := heard.collected }, heard)

/-- Compiles sources one after the other. One that fails does not end the others. -/
def compileAll (c : Compiler) (sources : List String) :
    StateM Heard (List (Except CompileError Page)) :=
  sources.mapM c.compile

end Compiler

end Shoutmark
