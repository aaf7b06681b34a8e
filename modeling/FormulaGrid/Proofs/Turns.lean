import FormulaGrid.EventLoop
import FormulaGrid.Proofs.Steps

/-!
# Turns of a run

Besides the moves, a run can make two turns more. A listener that has begun a refresh can catch the fault
with which that one ends, so that only the innermost refresh is over. And a callback can have its turn:
it begins a refresh, and before anything else happens this takes the first batch of the queue, or ends.
-/
namespace FormulaGrid

inductive Turn where
  | move (m : Move)
  /-- a step of the refreshes in progress, with a listener below that catches its fault -/
  | caught
  /-- the beginning of the callback scheduled first -/
  | callback

namespace Session

variable {σ : Type}

/-- What a step answers whose fault is caught. -/
def ofCaught (active : List Activation) : Outcome σ → Except Fault Answer × Session σ
  | .failed fault s => (.error fault, { s with active := active.tail })
  | outcome => ofOutcome active outcome

/-- The session in which a callback has begun its refresh, with that many callbacks still to come. -/
def calledBack (s : Session σ) (n : Nat) : Session σ :=
  { s with callbacks := some n, active := .fresh :: s.active }

variable [CellStore σ]

def startCallback (s : Session σ) : Except Fault Answer × Session σ :=
  match s.callbacks with
  | some (n + 1) => (s.calledBack n).move .step
  | _ => (.ok .done, s)

def turn (s : Session σ) : Turn → Except Fault Answer × Session σ
  | .move m => s.move m
  | .caught => ofCaught s.active s.step
  | .callback => s.startCallback

def afterTurns (s : Session σ) (turns : List Turn) : Session σ :=
  turns.foldl (fun s turn => (s.turn turn).2) s

end Session

end FormulaGrid
