import FormulaGrid.Proofs.Turns
import FormulaGrid.Sheet

/-!
# Callbacks and queued batches

Inside an event loop no batch is left without a callback that is still to come. A fill schedules one for
the batch that it queues, and a callback that has its turn takes a batch at once, so whatever happens to
the refresh after that, the callbacks to come are enough for the batches that are queued.
-/
namespace FormulaGrid.Session

variable {σ : Type} {s s' : Session σ}

/-- Inside an event loop with at least as many callbacks scheduled as there are batches. -/
def Covered (s : Session σ) : Prop := ∃ n, s.callbacks = some n ∧ s.queue.length ≤ n

/-- A session with no more batches and as many callbacks is covered as well. -/
theorem Covered.of_le (h : s.Covered) (hcallbacks : s'.callbacks = s.callbacks)
    (hqueue : s'.queue.length ≤ s.queue.length) : s'.Covered := by
  obtain ⟨n, hn, hle⟩ := h
  exact ⟨n, hcallbacks.trans hn, Nat.le_trans hqueue hle⟩

theorem Covered.of_undisturbed (h : s.Covered) (hs : Undisturbed s s') : s'.Covered :=
  h.of_le hs.callbacks (Nat.le_of_eq (congrArg List.length hs.queue))

theorem Covered.enqueue (h : s.Covered) (batch : List CellKey) : (s.enqueue batch).Covered := by
  obtain ⟨n, hn, hle⟩ := h
  exact ⟨n + 1, by simp [Session.enqueue, hn], by simpa [Session.enqueue] using hle⟩

theorem Covered.pending_eq_zero (h : s.Covered) (hnone : s.callbacks = some 0) : s.pending = 0 := by
  obtain ⟨n, hn, hle⟩ := h
  obtain rfl : 0 = n := Option.some.inj (hnone.symm.trans hn)
  rw [pending, List.eq_nil_of_length_eq_zero (Nat.le_zero.mp hle)]
  rfl

variable [CellStore σ]

theorem Covered.perform (h : s.Covered) (command : Command) : (s.perform command).2.Covered := by
  rcases s.perform_cases command with rfl | rfl | hsame
  · exact h.of_le rfl (Nat.le_refl _)
  · exact h.of_le rfl (Nat.zero_le _)
  · refine Covered.of_undisturbed ?_ hsame
    cases s.batch? command with
    | none => exact h
    | some batch => exact h.enqueue batch

theorem Covered.step (h : s.Covered) : (ofOutcome s.active s.step).2.Covered := by
  refine step_elim (motive := fun outcome => (ofOutcome s.active outcome).2.Covered) s
    ?idle ?silent ?obeyed ?refused ?called ?read ?unread ?taken ?ended ?returned
  case obeyed =>
    intro name calls rest count below command scripts answer s' _ _ hperform
    have hdone := Covered.perform (s := { s with scripts := scripts }) h command
    rwa [hperform] at hdone
  case refused =>
    intro name calls rest count below command scripts fault s' _ _ hperform
    have hdone := Covered.perform (s := { s with scripts := scripts }) h command
    rw [hperform] at hdone
    exact hdone.of_le rfl (Nat.le_refl _)
  case taken =>
    intro count below batch queue _ hqueue
    exact h.of_le rfl (by simp [ofOutcome, hqueue])
  -- all other cases leave the queue and the callbacks as they are
  all_goals
    intros
    exact h.of_le rfl (Nat.le_refl _)

theorem Covered.move (h : s.Covered) (move : Move) : (s.move move).2.Covered := by
  cases move with
  | perform command => exact h.perform command
  | step => exact h.step
  | abandon => exact h.of_le rfl (Nat.le_refl _)

/-- A callback that has its turn is not to come any more, but takes a batch with it if there is one. -/
theorem covered_calledBack {n : Nat} (h : s.Covered) (hcallbacks : s.callbacks = some (n + 1)) :
    ((s.calledBack n).move .step).2.Covered := by
  obtain ⟨m, hm, hle⟩ := h
  obtain rfl : n + 1 = m := Option.some.inj (hcallbacks.symm.trans hm)
  cases hqueue : s.queue with
  | nil =>
    have hbegun : (s.calledBack n).Covered := ⟨n, rfl, by simp [calledBack, hqueue]⟩
    exact hbegun.step
  | cons batch queue =>
    have htaken : (s.calledBack n).step = .running { s.calledBack n with
        queue := queue, active := ⟨none, [], batch, 0⟩ :: s.active } := by
      simp [calledBack, Session.step, stepBatch, Activation.fresh, hqueue]
    have hless : queue.length ≤ n := by simpa [hqueue] using hle
    rw [Session.move, htaken]
    exact ⟨n, rfl, hless⟩

theorem Covered.turn (h : s.Covered) (turn : Turn) : (s.turn turn).2.Covered := by
  cases turn with
  | move m => exact h.move m
  | caught =>
    have hstep := h.step
    simp only [Session.turn]
    cases houtcome : s.step with
    | failed fault s' =>
      rw [houtcome] at hstep
      exact hstep.of_le rfl (Nat.le_refl _)
    | _ => rwa [houtcome] at hstep
  | callback =>
    simp only [Session.turn, startCallback]
    split
    · rename_i n hcallbacks
      exact covered_calledBack h hcallbacks
    · exact h

theorem Covered.afterTurns (h : s.Covered) (turns : List Turn) : (s.afterTurns turns).Covered := by
  induction turns generalizing s with
  | nil => exact h
  | cons turn turns ih => exact ih (h.turn turn)

/-- A refresh that is covered after its next step is covered when it has ended. -/
theorem covered_settle (h : (s.move .step).2.Covered) : s.settle.2.Covered := by
  induction s using settle.induct with
  | case1 s s' hstep ih =>
    rw [settle_of_running hstep]
    rw [Session.move, hstep] at h
    exact ih (Covered.step h)
  | case2 s count s' hstep =>
    rw [settle_of_finished hstep]
    rwa [Session.move, hstep] at h
  | case3 s fault s' hstep =>
    rw [settle_of_failed hstep]
    rwa [Session.move, hstep] at h

theorem Covered.execute (h : s.Covered) (command : Command) : (s.execute command).2.Covered := by
  by_cases hc : command = .refresh
  · subst hc
    exact covered_settle (h.perform .refresh).step
  · rw [execute_of_ne_refresh hc]
    exact h.perform command

theorem Covered.runCallback (h : s.Covered) : s.runCallback.Covered := by
  unfold Session.runCallback
  split
  · rename_i n hcallbacks
    have hbegun : ((s.calledBack n).move .step).2.Covered := covered_calledBack h hcallbacks
    have hdone : (refresh { s with callbacks := some n }).2.Covered := covered_settle hbegun
    split
    · rename_i heq
      rwa [heq] at hdone
    · rename_i heq
      rw [heq] at hdone
      exact hdone.of_le rfl (Nat.le_refl _)
  · exact h

/-- A step of an event loop: a command, or the callback scheduled first, from beginning to end. -/
inductive LoopStep where
  | command (c : Command)
  | callback

def loopStep (s : Session σ) : LoopStep → Session σ
  | .command c => (s.execute c).2
  | .callback => s.runCallback

def afterLoop (s : Session σ) (steps : List LoopStep) : Session σ := steps.foldl loopStep s

theorem Covered.afterLoop (h : s.Covered) (steps : List LoopStep) : (s.afterLoop steps).Covered := by
  induction steps generalizing s with
  | nil => exact h
  | cons step steps ih =>
    cases step with
    | command c => exact ih (h.execute c)
    | callback => exact ih h.runCallback

/-- In a run inside an event loop that starts with an empty queue there are never more batches than
callbacks to come, so that nothing is pending when no callback is to come. This is so after each turn,
also in the midst of a refresh, and after each step of the loop. -/
theorem callbacks_cover_queue (s : Session σ) (hqueue : s.queue = [])
    (hcallbacks : s.callbacks = some 0) :
    (∀ turns, let r := s.afterTurns turns
      (∃ n, r.callbacks = some n ∧ r.queue.length ≤ n) ∧ (r.callbacks = some 0 → r.pending = 0)) ∧
    ∀ steps, let r := s.afterLoop steps
      (∃ n, r.callbacks = some n ∧ r.queue.length ≤ n) ∧
        (r.callbacks = some 0 → r.pending = 0) := by
  have h : s.Covered := ⟨0, hcallbacks, by simp [hqueue]⟩
  constructor
  · intro turns r
    have hr : r.Covered := h.afterTurns turns
    exact ⟨hr, hr.pending_eq_zero⟩
  · intro steps r
    have hr : r.Covered := h.afterLoop steps
    exact ⟨hr, hr.pending_eq_zero⟩

/-- A callback whose listener fills once more and then fails, with one cell of its batch still unread. -/
def failingCallback : List Turn :=
  [.move (.perform (.edit ⟨1, 0⟩ ['=', 'B', '1'])), .move (.perform (.fill ⟨1, 0⟩ ⟨3, 0⟩)),
    .move (.perform (.listen (.named "log") [])), .callback, .move .step, .move .step,
    .move (.perform (.fill ⟨1, 0⟩ ⟨2, 0⟩)), .move .abandon]

theorem callbacks_cover_queue_failing :
    let s := (start (Sheet.empty 3 true)).enterLoop
    let steps := [LoopStep.command (.edit ⟨1, 0⟩ ['=', 'B', '1']),
      .command (.fill ⟨1, 0⟩ ⟨3, 0⟩), .command .refresh, .callback]
    s.queue = [] ∧ s.callbacks = some 0 ∧
    ((s.afterTurns failingCallback).callbacks = some 1 ∧
      (s.afterTurns failingCallback).queue.length = 1) ∧
    (∃ n, (s.afterTurns failingCallback).callbacks = some n ∧
      (s.afterTurns failingCallback).queue.length ≤ n) ∧
    ((s.afterTurns (failingCallback ++ [.callback])).callbacks = some 0 ∧
      (s.afterTurns (failingCallback ++ [.callback])).pending = 0) ∧
    ∃ n, (s.afterLoop steps).callbacks = some n ∧ (s.afterLoop steps).queue.length ≤ n := by
  intro s steps
  obtain ⟨hturns, hsteps⟩ := callbacks_cover_queue s rfl rfl
  have hnone : (s.afterTurns (failingCallback ++ [.callback])).callbacks = some 0 := by
    decide +kernel
  exact ⟨rfl, rfl, by decide +kernel, (hturns failingCallback).1,
    ⟨hnone, (hturns _).2 hnone⟩, (hsteps steps).1⟩

end FormulaGrid.Session
