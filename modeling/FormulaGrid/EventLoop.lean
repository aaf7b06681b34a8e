import FormulaGrid.Refresh

/-!
# Event loops

Inside a loop each queued fill has scheduled a callback, which refreshes whatever is pending when its
turn comes. A callback that fails is put on record and disturbs no other one. A loop that is closed
still makes a few rounds, and what is scheduled after those is lost.
-/
namespace FormulaGrid.Session

variable {σ : Type} [CellStore σ]

def enterLoop (s : Session σ) : Session σ := { s with callbacks := some 0 }

/-- Runs the next callback, if one is scheduled. -/
def runCallback (s : Session σ) : Session σ :=
  match s.callbacks with
  | some (n + 1) =>
    match { s with callbacks := some n }.refresh with
    | (.ok _, s) => s
    | (.error fault, s) => { s with events := s.events ++ [.failed fault] }
  | _ => s

def runCallbacks (s : Session σ) : Nat → Session σ
  | 0 => s
  | n + 1 => s.runCallback.runCallbacks n

/-- Runs the callbacks scheduled so far; those they schedule themselves have to wait. -/
def tick (s : Session σ) : Session σ := s.runCallbacks (s.callbacks.getD 0)

/-- Runs callbacks until none is left. Each one scheduled meanwhile takes a command off some script,
which bounds their number. -/
def idle (s : Session σ) : Session σ := s.runCallbacks (s.callbacks.getD 0 + s.scripts.weight)

/-- The rounds that a loop still makes when it is closed. -/
def closingRounds : Nat := 5

def closeLoop (s : Session σ) : Session σ :=
  { Nat.repeat tick closingRounds s with callbacks := none }

/-- The events on record, and the session with an empty record. -/
def takeEvents (s : Session σ) : List Event × Session σ := (s.events, { s with events := [] })

end FormulaGrid.Session
