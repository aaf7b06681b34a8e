import FormulaGrid.Session
import Mathlib.Logic.Function.Iterate

/-!
# A ledger of refreshes

The ledger gives a number to every place of every batch that is queued, and enters what becomes of it.
Each of its entries keeps the balance: what has been queued was read again, is still to be read, was
cleared away or has been lost to a fault, and the calls due for a cell were made, are still to be made
or have been left out because of a fault.
-/
namespace FormulaGrid

/-- A place of a queued batch. The numbers go on from one batch to the next. -/
structure Ticket where
  number : Nat
  key : CellKey
  deriving DecidableEq, Repr

/-- A reading: the cell, the text read, if the reading did not fail, and the listeners that were
registered right after it. -/
structure Visit where
  ticket : Ticket
  text : Option Text
  listeners : List Listener

/-- The calls that a reading makes due. -/
def Visit.due (v : Visit) : List Notice :=
  match v.text with
  | some text => v.listeners.map fun listener => ⟨listener, v.ticket.key, text⟩
  | none => []

/-- A refresh in progress: the calls for the cell read last that are still to be made, what it has not
read of the batch in progress, and all that it has read itself. -/
structure Task where
  calls : List (Ticket × Notice)
  rest : List Ticket
  visited : List Ticket

structure Ledger where
  /-- all batches that were ever queued -/
  issued : List (List Ticket)
  /-- the batches in the queue -/
  waiting : List (List Ticket)
  /-- the batches that refreshes have taken from the queue, in this order -/
  taken : List (List Ticket)
  /-- the refreshes in progress, the innermost first -/
  tasks : List Task
  /-- what each refresh has read itself that has returned, the last one first -/
  returned : List (List Ticket)
  visits : List Visit
  told : List (Ticket × Notice)
  /-- what a clearing has dropped from the queue -/
  cleared : List Ticket
  /-- what was unread of a batch in progress when a fault ended its refresh -/
  lost : List Ticket
  /-- calls that were still to be made when a fault ended their refresh -/
  skipped : List (Ticket × Notice)

namespace Ledger

def blank : Ledger := ⟨[], [], [], [], [], [], [], [], [], []⟩

def tickets (first : Nat) (keys : List CellKey) : List Ticket :=
  (keys.zipIdx first).map fun entry => ⟨entry.2, entry.1⟩

def issue (l : Ledger) (keys : List CellKey) : Ledger :=
  let batch := tickets l.issued.flatten.length keys
  { l with issued := l.issued ++ [batch], waiting := l.waiting ++ [batch] }

def clear (l : Ledger) : Ledger :=
  { l with waiting := [], cleared := l.cleared ++ l.waiting.flatten }

/-- A refresh begins. -/
def start (l : Ledger) : Ledger := { l with tasks := ⟨[], [], []⟩ :: l.tasks }

/-- The innermost refresh takes the first batch of the queue. -/
def take (l : Ledger) : Ledger :=
  match l.waiting, l.tasks with
  | batch :: waiting, ⟨[], [], visited⟩ :: below =>
    { l with waiting := waiting, taken := l.taken ++ [batch], tasks := ⟨[], batch, visited⟩ :: below }
  | _, _ => l

/-- The innermost refresh reads the next cell of its batch. -/
def visit (l : Ledger) (text : Option Text) (listeners : List Listener) : Ledger :=
  match l.tasks with
  | ⟨[], ticket :: rest, visited⟩ :: below =>
    let visit : Visit := ⟨ticket, text, listeners⟩
    { l with
      visits := l.visits ++ [visit]
      tasks := ⟨visit.due.map (Prod.mk ticket), rest, visited ++ [ticket]⟩ :: below }
  | _ => l

/-- The innermost refresh makes the next call. -/
def tell (l : Ledger) : Ledger :=
  match l.tasks with
  | ⟨call :: calls, rest, visited⟩ :: below =>
    { l with told := l.told ++ [call], tasks := ⟨calls, rest, visited⟩ :: below }
  | _ => l

/-- The innermost refresh returns. -/
def finish (l : Ledger) : Ledger :=
  match l.tasks with
  | ⟨[], [], visited⟩ :: below => { l with tasks := below, returned := visited :: l.returned }
  | _ => l

/-- A fault ends the innermost refresh. -/
def interrupt (l : Ledger) : Ledger :=
  match l.tasks with
  | [] => l
  | task :: below =>
    { l with tasks := below, lost := l.lost ++ task.rest, skipped := task.calls ++ l.skipped }

/-- A fault ends all refreshes in progress. -/
def interruptAll (l : Ledger) : Ledger := interrupt^[l.tasks.length] l

def visited (l : Ledger) : List Ticket := l.visits.map Visit.ticket

/-- What was read of a batch, in the order in which it was read. -/
def visitedOf (l : Ledger) (batch : List Ticket) : List Ticket := l.visited.filter (· ∈ batch)

/-- All that has been queued: what was read, what is still to be read, what was cleared away and what
has been lost. -/
def accounts (l : Ledger) : List Ticket :=
  l.visited ++ (l.waiting.flatten ++ l.tasks.flatMap Task.rest) ++ l.cleared ++ l.lost

/-- All calls that ever were due: those made, those still to be made and those left out. -/
def calls (l : Ledger) : List (Ticket × Notice) :=
  l.told ++ l.tasks.flatMap Task.calls ++ l.skipped

def callsOf (ticket : Ticket) (calls : List (Ticket × Notice)) : List Notice :=
  (calls.filter (·.1 = ticket)).map Prod.snd

/-- What the refreshes, returned or in progress, have each read themselves. -/
def counted (l : Ledger) : List Ticket := l.returned.flatten ++ l.tasks.flatMap Task.visited

structure Balanced (l : Ledger) : Prop where
  /-- all tickets are different -/
  numbered : l.issued.flatten.map Ticket.number = List.range l.issued.flatten.length
  /-- every ticket is in one of the accounts -/
  conserved : l.accounts.Perm l.issued.flatten
  taken_in_order : (l.taken ++ l.waiting).Sublist l.issued
  visited_in_order : ∀ batch ∈ l.issued, l.visitedOf batch <+: batch
  /-- a refresh has still to read what no one has read of the batch it took -/
  unvisited : ∀ task ∈ l.tasks, task.rest ≠ [] →
    ∃ batch ∈ l.taken, l.visitedOf batch ++ task.rest = batch
  /-- the calls for a cell are those due right after its reading, in this order -/
  due : ∀ visit ∈ l.visits, callsOf visit.ticket l.calls = visit.due
  calls_visited : ∀ call ∈ l.calls, call.1 ∈ l.visited
  own_calls : ∀ task ∈ l.tasks, ∀ call ∈ task.calls, call.1 ∈ task.visited
  /-- no ticket is counted by two refreshes, or twice by one -/
  counted_once : l.counted.Nodup
  counted_visited : l.counted ⊆ l.visited

end Ledger

end FormulaGrid
