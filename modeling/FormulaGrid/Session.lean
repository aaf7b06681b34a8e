import FormulaGrid.CellStore
import FormulaGrid.Command

/-!
# Sessions

A session is a store of cells together with the refreshes that its fills have queued, the listeners
that refreshes call, and what has been told to them. Inside an event loop every queued batch also
schedules a callback. `perform` carries out a command; of a refresh it only makes the beginning.
-/
namespace FormulaGrid

/-- A call of a listener with a refreshed cell and the text just read. -/
structure Notice where
  listener : Listener
  key : CellKey
  text : Text
  deriving DecidableEq, Repr

inductive Event where
  | told (notice : Notice)
  /-- a callback stopped with a fault -/
  | failed (fault : Fault)
  deriving DecidableEq, Repr

/-- A refresh in progress: the named listener that is carrying out its script, what is left of the
calls for the cell read last and of the batch taken last, and how many cells it has read. -/
structure Activation where
  speaker : Option String
  calls : List Notice
  rest : List CellKey
  count : Nat

def Activation.fresh : Activation := ⟨none, [], [], 0⟩

structure Session (σ : Type) where
  store : σ
  queue : List (List CellKey)
  /-- refreshes in progress, the innermost first -/
  active : List Activation
  listeners : List Listener
  scripts : Scripts
  /-- scheduled callbacks, inside an event loop -/
  callbacks : Option Nat
  events : List Event

inductive Answer where
  | done
  | text (t : Text)
  | found (t : Option Text)
  | keys (keys : List CellKey)
  | table (rows : List (List Text))
  | count (n : Nat)
  deriving DecidableEq, Repr

namespace Session

variable {σ : Type}

def start (store : σ) : Session σ := ⟨store, [], [], [], [], none, []⟩

/-- The outcome of an operation on the store, and the session with the store it leaves. -/
def within {α : Type} (s : Session σ) : Except Fault α × σ → Except Fault α × Session σ
  | (outcome, store) => (outcome, { s with store := store })

def answering {α : Type} (answer : α → Answer) (result : Except Fault α × Session σ) :
    Except Fault Answer × Session σ :=
  (result.1.map answer, result.2)

/-- Queues the cells of a formula fill, and inside an event loop schedules their refresh. -/
def enqueue (s : Session σ) (batch : List CellKey) : Session σ :=
  { s with queue := s.queue ++ [batch], callbacks := s.callbacks.map (· + 1) }

def pending (s : Session σ) : Nat := total List.length s.queue

def declare (s : Session σ) (listener : Listener) (script : List Command) : Session σ :=
  match listener with
  | .named name => { s with scripts := s.scripts.declare name script }
  | .feed => s

def listen (s : Session σ) (listener : Listener) (script : List Command) : Session σ :=
  { s.declare listener script with listeners := s.listeners ++ [listener] }

/-- Takes away one of the entries of a listener, if there is any. -/
def unlisten (s : Session σ) (listener : Listener) : Session σ :=
  { s.declare listener [] with listeners := s.listeners.erase listener }

/-- Puts a call of a listener on record. -/
def tell (s : Session σ) (notice : Notice) : Session σ :=
  { s with events := s.events ++ [.told notice] }

theorem declare_active (s : Session σ) (listener : Listener) (script : List Command) :
    (s.declare listener script).active = s.active := by
  cases listener <;> rfl

theorem declare_weight (s : Session σ) (listener : Listener) (script : List Command) :
    (s.declare listener script).scripts.weight ≤ s.scripts.weight + scriptWeight script := by
  cases listener with
  | named name => exact Scripts.weight_declare s.scripts name script
  | feed => exact Nat.le_add_right _ _

variable [CellStore σ]

def fill (s : Session σ) (source target : CellKey) : Except Fault (List CellKey) × Session σ :=
  match CellStore.fill s.store source target with
  | (.error fault, store) => (.error fault, { s with store := store })
  | (.ok keys, store) =>
    let filled := { s with store := store }
    if keys ≠ [] ∧ (CellStore.rawText store source).isFormula then
      (.ok keys, filled.enqueue keys)
    else (.ok keys, filled)

def clear (s : Session σ) : Session σ := { s with store := CellStore.clear s.store, queue := [] }

def perform (s : Session σ) : Command → Except Fault Answer × Session σ
  | .edit key text => answering (fun _ => .done) (s.within (CellStore.edit s.store key text))
  | .read key => answering .text (s.within (CellStore.read s.store key))
  | .rawText key => (.ok (.text (CellStore.rawText s.store key)), s)
  | .cached key => (.ok (.found (CellStore.cached s.store key)), s)
  | .dependencies key => (.ok (.keys (CellStore.dependencies s.store key)), s)
  | .render rows => answering .table (s.within (CellStore.renderRows s.store rows))
  | .invalidate key => answering (fun _ => .done) (s.within (CellStore.invalidate s.store key))
  | .fill source target => answering .keys (s.fill source target)
  | .refresh => (.ok .done, { s with active := .fresh :: s.active })
  | .pending => (.ok (.count s.pending), s)
  | .listen listener script => (.ok .done, s.listen listener script)
  | .unlisten listener => (.ok .done, s.unlisten listener)
  | .clear => (.ok .done, s.clear)

theorem fill_active (s : Session σ) (source target : CellKey) :
    (s.fill source target).2.active = s.active := by
  unfold fill
  split <;> (try split) <;> rfl

theorem fill_scripts (s : Session σ) (source target : CellKey) :
    (s.fill source target).2.scripts = s.scripts := by
  unfold fill
  split <;> (try split) <;> rfl

theorem perform_active (s : Session σ) {command : Command} (h : command ≠ .refresh) :
    (s.perform command).2.active = s.active := by
  cases command with
  | refresh => exact absurd rfl h
  | fill source target => exact s.fill_active source target
  | listen listener script => exact s.declare_active listener script
  | unlisten listener => exact s.declare_active listener []
  | _ => rfl

/-- A command weighs more than the script it brings along. -/
theorem perform_weight (s : Session σ) (command : Command) :
    (s.perform command).2.scripts.weight < s.scripts.weight + command.weight := by
  cases command with
  | listen listener script =>
    have := s.declare_weight listener script
    simp only [perform, listen, Command.weight]
    omega
  | unlisten listener =>
    have := s.declare_weight listener []
    simp only [perform, unlisten, Command.weight, scriptWeight] at *
    omega
  | fill source target =>
    simp only [perform, answering, fill_scripts, Command.weight]
    omega
  | _ => exact Nat.lt_succ_self _

end Session

end FormulaGrid
