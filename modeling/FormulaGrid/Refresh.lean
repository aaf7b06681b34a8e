import FormulaGrid.Session

/-!
# Refreshes

A refresh takes the queued batches one after the other, reads their cells again and calls every
listener with what was read. Listeners can give commands, among them a refresh within the refresh, so
the work is done in steps on the stack of refreshes in progress. A fault ends all of them: the cells
left in their batches are lost, the batches still queued stay, and so do the commands that listeners
have not given yet.
-/
namespace FormulaGrid

/-- The name of the listener that a call makes carry out its script. -/
def Listener.speaker? : Listener → Option String
  | .named name => some name
  | .feed => none

inductive Outcome (σ : Type) where
  | running (s : Session σ)
  | finished (count : Nat) (s : Session σ)
  | failed (fault : Fault) (s : Session σ)

/-- Calls to come, each of which has a beginning and an end, and speeches to end. -/
def Activation.outstanding (a : Activation) : Nat :=
  2 * a.calls.length + if a.speaker.isSome then 1 else 0

namespace Session

variable {σ : Type} [CellStore σ]

def abort (s : Session σ) (fault : Fault) : Outcome σ := .failed fault { s with active := [] }

/-- The next command of the listener that is speaking, or the end of its speech. -/
def stepScript (s : Session σ) (name : String) (top : Activation) (below : List Activation) :
    Outcome σ :=
  match s.scripts.takeCommand? name with
  | none => .running { s with active := { top with speaker := none } :: below }
  | some (command, scripts) =>
    match { s with scripts := scripts }.perform command with
    | (.ok _, s) => .running s
    | (.error fault, s) => s.abort fault

/-- The next call for the cell read last. -/
def stepCall (s : Session σ) (notice : Notice) (calls : List Notice) (top : Activation)
    (below : List Activation) : Outcome σ :=
  let top := { top with speaker := notice.listener.speaker?, calls := calls }
  .running { s.tell notice with active := top :: below }

/-- The next cell of the batch in progress. -/
def stepCell (s : Session σ) (key : CellKey) (rest : List CellKey) (top : Activation)
    (below : List Activation) : Outcome σ :=
  match CellStore.read s.store key with
  | (.error fault, store) => { s with store := store }.abort fault
  | (.ok text, store) =>
    let calls := s.listeners.map fun listener => ⟨listener, key, text⟩
    let top := { top with calls := calls, rest := rest, count := top.count + 1 }
    .running { s with store := store, active := top :: below }

/-- The next batch of the queue, or the end of the innermost refresh. -/
def stepBatch (s : Session σ) (top : Activation) (below : List Activation) : Outcome σ :=
  match s.queue, below with
  | batch :: queue, _ =>
    .running { s with queue := queue, active := { top with rest := batch } :: below }
  | [], [] => .finished top.count { s with active := [] }
  | [], _ :: _ => .running { s with active := below }

def step (s : Session σ) : Outcome σ :=
  match s.active with
  | [] => .finished 0 s
  | top :: below =>
    match top.speaker, top.calls, top.rest with
    | some name, _, _ => s.stepScript name top below
    | none, notice :: calls, _ => s.stepCall notice calls top below
    | none, [], key :: rest => s.stepCell key rest top below
    | none, [], [] => s.stepBatch top below

/-- Batches and cells to come, and refreshes to end. -/
def backlog (s : Session σ) : Nat :=
  total (fun batch => batch.length + 1) s.queue + total (fun a => a.rest.length + 1) s.active

def outstandingCalls (s : Session σ) : Nat := total Activation.outstanding s.active

/-- What every step makes smaller, in the order of dictionaries: first all that listeners can still
ask for. -/
def load (s : Session σ) : Nat × Nat × Nat := (s.scripts.weight, s.backlog, s.outstandingCalls)

/-- Carrying out a command of a script leaves less of the scripts. -/
theorem stepScript_weight {s s' : Session σ} {name : String} {top : Activation}
    {below : List Activation} {command : Command} {scripts : Scripts}
    (htake : s.scripts.takeCommand? name = some (command, scripts))
    (h : s.stepScript name top below = .running s') : s'.scripts.weight < s.scripts.weight := by
  have hweight := Scripts.weight_takeCommand htake
  have hless := { s with scripts := scripts }.perform_weight command
  simp only [stepScript, htake] at h
  split at h
  · rename_i heq
    rw [heq] at hless
    obtain rfl := Outcome.running.inj h
    simp only at hless
    omega
  · simp [abort] at h

/-- Every step leaves less to do, so a refresh comes to an end. -/
theorem step_load {s s' : Session σ} (h : s.step = .running s') :
    Prod.Lex (· < ·) (Prod.Lex (· < ·) (· < ·)) s'.load s.load := by
  rw [Prod.lex_def, Prod.lex_def]
  simp only [load]
  unfold step at h
  split at h
  · simp at h
  rename_i top below hactive
  split at h
  · rename_i name hspeaker
    cases htake : s.scripts.takeCommand? name with
    | some taken => exact Or.inl (stepScript_weight htake h)
    | none =>
      simp only [stepScript, htake] at h
      obtain rfl := Outcome.running.inj h
      refine Or.inr ⟨rfl, Or.inr ⟨?_, ?_⟩⟩
      · simp [backlog, hactive]
      · simp [outstandingCalls, Activation.outstanding, hactive, hspeaker]
  · rename_i notice calls hspeaker hcalls
    obtain rfl := Outcome.running.inj h
    refine Or.inr ⟨rfl, Or.inr ⟨?_, ?_⟩⟩
    · simp [backlog, tell, hactive]
    · simp only [outstandingCalls, Activation.outstanding, hactive, hspeaker, hcalls,
        total_cons, List.length_cons]
      simp only [Option.isSome_none, Bool.false_eq_true, if_false]
      split <;> omega
  · rename_i key rest hspeaker hcalls hrest
    unfold stepCell at h
    split at h
    · simp [abort] at h
    obtain rfl := Outcome.running.inj h
    refine Or.inr ⟨rfl, Or.inl ?_⟩
    simp [backlog, hactive, hrest]
  · rename_i hspeaker hcalls hrest
    unfold stepBatch at h
    split at h
    · rename_i hqueue
      obtain rfl := Outcome.running.inj h
      refine Or.inr ⟨rfl, Or.inl ?_⟩
      simp only [backlog, hactive, hqueue, hrest, total_cons, List.length_nil]
      omega
    · simp at h
    · obtain rfl := Outcome.running.inj h
      refine Or.inr ⟨rfl, Or.inl ?_⟩
      simp [backlog, hactive, hrest]

/-- Works off the refreshes in progress; the count is that of the outermost one. -/
def settle (s : Session σ) : Except Fault Nat × Session σ :=
  match _h : s.step with
  | .running s' => s'.settle
  | .finished count s' => (.ok count, s')
  | .failed fault s' => (.error fault, s')
termination_by s.load
decreasing_by exact step_load _h

def refresh (s : Session σ) : Except Fault Nat × Session σ :=
  (s.perform .refresh).2.settle

/-- Carries out a command from beginning to end. -/
def execute (s : Session σ) : Command → Except Fault Answer × Session σ
  | .refresh => answering .count s.refresh
  | command => s.perform command

end Session

end FormulaGrid
