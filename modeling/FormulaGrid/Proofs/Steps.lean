import FormulaGrid.Proofs.Moves

/-!
# Steps of a session

What a step of a session can be, and what a command does to all that a session keeps besides its store,
listeners and scripts.
-/
namespace FormulaGrid.Session

variable {σ : Type} [CellStore σ] {s s' : Session σ}

/-- A step does nothing when no refresh is in progress. Otherwise the listener that speaks ends, or gives
a command, which may fail; or the next listener is called, or the next cell is read, which may fail; or
the next batch is taken, or the innermost refresh ends. -/
theorem step_elim {motive : Outcome σ → Prop} (s : Session σ)
    (idle : s.active = [] → motive (.finished 0 s))
    (silent : ∀ name calls rest count below,
      s.active = ⟨some name, calls, rest, count⟩ :: below → s.scripts.takeCommand? name = none →
      motive (.running { s with active := ⟨none, calls, rest, count⟩ :: below }))
    (obeyed : ∀ name calls rest count below command scripts answer s',
      s.active = ⟨some name, calls, rest, count⟩ :: below →
      s.scripts.takeCommand? name = some (command, scripts) →
      { s with scripts := scripts }.perform command = (.ok answer, s') → motive (.running s'))
    (refused : ∀ name calls rest count below command scripts fault s',
      s.active = ⟨some name, calls, rest, count⟩ :: below →
      s.scripts.takeCommand? name = some (command, scripts) →
      { s with scripts := scripts }.perform command = (.error fault, s') →
      motive (.failed fault { s' with active := [] }))
    (called : ∀ notice calls rest count below,
      s.active = ⟨none, notice :: calls, rest, count⟩ :: below →
      motive (.running { s.tell notice with
        active := ⟨notice.listener.speaker?, calls, rest, count⟩ :: below }))
    (read : ∀ key rest count below text store,
      s.active = ⟨none, [], key :: rest, count⟩ :: below →
      CellStore.read s.store key = (.ok text, store) →
      motive (.running { s with
        store := store
        active := ⟨none, s.listeners.map fun listener => ⟨listener, key, text⟩, rest, count + 1⟩
          :: below }))
    (unread : ∀ key rest count below fault store,
      s.active = ⟨none, [], key :: rest, count⟩ :: below →
      CellStore.read s.store key = (.error fault, store) →
      motive (.failed fault { s with store := store, active := [] }))
    (taken : ∀ count below batch queue,
      s.active = ⟨none, [], [], count⟩ :: below → s.queue = batch :: queue →
      motive (.running { s with queue := queue, active := ⟨none, [], batch, count⟩ :: below }))
    (ended : ∀ count, s.active = [⟨none, [], [], count⟩] → s.queue = [] →
      motive (.finished count { s with active := [] }))
    (returned : ∀ count next below, s.active = ⟨none, [], [], count⟩ :: next :: below →
      s.queue = [] → motive (.running { s with active := next :: below })) :
    motive s.step := by
  unfold step
  cases hactive : s.active with
  | nil => exact idle hactive
  | cons top below =>
    obtain ⟨speaker, calls, rest, count⟩ := top
    cases speaker with
    | some name =>
      simp only [stepScript]
      cases htake : s.scripts.takeCommand? name with
      | none => exact silent name calls rest count below hactive htake
      | some next =>
        obtain ⟨command, scripts⟩ := next
        dsimp only
        cases hperform : { s with scripts := scripts }.perform command with
        | mk outcome s' =>
          cases outcome with
          | ok answer =>
            exact obeyed name calls rest count below command scripts answer s' hactive htake hperform
          | error fault =>
            exact refused name calls rest count below command scripts fault s' hactive htake hperform
    | none =>
      cases calls with
      | cons notice calls => exact called notice calls rest count below hactive
      | nil =>
        cases rest with
        | cons key rest =>
          simp only [stepCell]
          cases hread : CellStore.read s.store key with
          | mk outcome store =>
            cases outcome with
            | ok text => exact read key rest count below text store hactive hread
            | error fault => exact unread key rest count below fault store hactive hread
        | nil =>
          simp only [stepBatch]
          cases hqueue : s.queue with
          | cons batch queue => exact taken count below batch queue hactive hqueue
          | nil =>
            cases below with
            | nil => simpa only [hqueue] using ended count hactive hqueue
            | cons next below => simpa only [hqueue] using returned count next below hactive hqueue

/-- After a step that ends it no refresh is in progress. -/
theorem active_of_finished {count : Nat} (h : s.step = .finished count s') : s'.active = [] := by
  refine step_elim (motive := fun outcome => outcome = .finished count s' → s'.active = []) s
    ?idle ?silent ?obeyed ?refused ?called ?read ?unread ?taken ?ended ?returned h
  case idle =>
    intro hidle heq
    obtain ⟨_, rfl⟩ := Outcome.finished.inj heq
    exact hidle
  case ended =>
    intro count _ _ heq
    obtain ⟨_, rfl⟩ := Outcome.finished.inj heq
    rfl
  all_goals
    intros
    rename_i heq
    cases heq

theorem active_of_failed {fault : Fault} (h : s.step = .failed fault s') : s'.active = [] := by
  refine step_elim (motive := fun outcome => outcome = .failed fault s' → s'.active = []) s
    ?idle ?silent ?obeyed ?refused ?called ?read ?unread ?taken ?ended ?returned h
  case refused =>
    intro name calls rest count below command scripts fault s' _ _ _ heq
    obtain ⟨_, rfl⟩ := Outcome.failed.inj heq
    rfl
  case unread =>
    intro key rest count below fault store _ _ heq
    obtain ⟨_, rfl⟩ := Outcome.failed.inj heq
    rfl
  all_goals
    intros
    rename_i heq
    cases heq

/-- The answer of a refresh that ends within so many steps. -/
def settled? (s : Session σ) : Nat → Option (Except Fault Nat)
  | 0 => none
  | n + 1 =>
    match s.step with
    | .running s' => s'.settled? n
    | .finished count _ => some (.ok count)
    | .failed fault _ => some (.error fault)

theorem settle_of_settled {n : Nat} {answer : Except Fault Nat} (h : s.settled? n = some answer) :
    s.settle.1 = answer := by
  induction n generalizing s with
  | zero => cases h
  | succ n ih =>
    rw [settled?] at h
    split at h
    · rename_i hstep
      rw [settle_of_running hstep]
      exact ih h
    · rename_i hstep
      rw [settle_of_finished hstep]
      exact Option.some.inj h
    · rename_i hstep
      rw [settle_of_failed hstep]
      exact Option.some.inj h

/-- Two sessions that differ at most in their stores, listeners and scripts. -/
structure Undisturbed (s s' : Session σ) : Prop where
  queue : s'.queue = s.queue
  active : s'.active = s.active
  callbacks : s'.callbacks = s.callbacks
  events : s'.events = s.events

omit [CellStore σ] in
theorem declare_undisturbed (s : Session σ) (listener : Listener) (script : List Command) :
    Undisturbed s (s.declare listener script) := by
  cases listener <;> exact ⟨rfl, rfl, rfl, rfl⟩

/-- The batch that a command queues: the cells that it has filled, if it is the fill of a formula. -/
def batch? (s : Session σ) : Command → Option (List CellKey)
  | .fill source target =>
    match s.fill source target with
    | (.ok keys, s') =>
      if keys ≠ [] ∧ (CellStore.rawText s'.store source).isFormula then some keys else none
    | (.error _, _) => none
  | _ => none

theorem fill_undisturbed (s : Session σ) (source target : CellKey) :
    Undisturbed ((s.batch? (.fill source target)).elim s s.enqueue) (s.fill source target).2 := by
  simp only [batch?, fill]
  cases CellStore.fill s.store source target with
  | mk outcome store =>
    cases outcome with
    | error fault => exact ⟨rfl, rfl, rfl, rfl⟩
    | ok keys =>
      by_cases hqueued : keys ≠ [] ∧ (CellStore.rawText store source).isFormula
      · simp only [if_pos hqueued, enqueue]
        exact ⟨rfl, rfl, rfl, rfl⟩
      · simp only [if_neg hqueued]
        exact ⟨rfl, rfl, rfl, rfl⟩

/-- Only a refresh, a clearing and the queueing of a batch disturb what a session keeps besides. -/
theorem perform_cases (s : Session σ) (command : Command) :
    command = .refresh ∨ command = .clear ∨
      Undisturbed ((s.batch? command).elim s s.enqueue) (s.perform command).2 := by
  cases command with
  | refresh => exact Or.inl rfl
  | clear => exact Or.inr (Or.inl rfl)
  | fill source target => exact Or.inr (Or.inr (s.fill_undisturbed source target))
  | listen listener script =>
    have h := s.declare_undisturbed listener script
    exact Or.inr (Or.inr ⟨h.queue, h.active, h.callbacks, h.events⟩)
  | unlisten listener =>
    have h := s.declare_undisturbed listener []
    exact Or.inr (Or.inr ⟨h.queue, h.active, h.callbacks, h.events⟩)
  | _ => exact Or.inr (Or.inr ⟨rfl, rfl, rfl, rfl⟩)

end FormulaGrid.Session
