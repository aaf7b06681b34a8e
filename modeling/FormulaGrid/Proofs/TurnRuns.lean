import FormulaGrid.Proofs.StoreAbstraction
import FormulaGrid.Proofs.Turns

/-!
# Runs of turns

A turn carries out at most one command on the store, as a move does. So what every operation of a store
keeps holds after every run of turns, and sessions over a store and over its abstraction go through the same
turns with the same answers.
-/
namespace FormulaGrid

variable {σ τ : Type}

def Turn.inspects : Turn → Bool
  | .move m => m.inspects
  | _ => false

namespace Session

/-- A caught fault makes no difference to the store. -/
theorem ofCaught_store (active : List Activation) (outcome : Outcome σ) :
    (ofCaught active outcome).2.store = (ofOutcome active outcome).2.store := by
  cases outcome <;> rfl

theorem ofCaught_map (f : σ → τ) (active : List Activation) (outcome : Outcome σ) :
    ofCaught active (outcome.map f) = abstracted (map f) (ofCaught active outcome) := by
  cases outcome <;> rfl

/-- To begin a refresh and take its first batch carries out no command. -/
theorem nextCommand?_calledBack (s : Session σ) (n : Nat) : (s.calledBack n).nextCommand? = none := rfl

variable [CellStore σ]

/-- The command that a turn carries out on the store; a callback only begins its refresh. -/
def turnCommand? (s : Session σ) : Turn → Option Command
  | .move m => s.command? m
  | .caught => s.nextCommand?
  | .callback => none

def turnAnswers (s : Session σ) : List Turn → List (Except Fault Answer)
  | [] => []
  | turn :: turns => (s.turn turn).1 :: (s.turn turn).2.turnAnswers turns

/-- Every command that a run of turns carries out meets a condition on the store that it finds. -/
def ObeysTurns (condition : σ → Command → Prop) (s : Session σ) : List Turn → Prop
  | [] => True
  | turn :: turns =>
    (∀ command ∈ s.turnCommand? turn, condition s.store command) ∧
      (s.turn turn).2.ObeysTurns condition turns

instance decidableObeysTurns (condition : σ → Command → Prop)
    [∀ store command, Decidable (condition store command)] :
    (s : Session σ) → (turns : List Turn) → Decidable (s.ObeysTurns condition turns)
  | _, [] => isTrue trivial
  | s, turn :: turns =>
    have := decidableObeysTurns condition (s.turn turn).2 turns
    inferInstanceAs (Decidable ((∀ command ∈ s.turnCommand? turn, condition s.store command) ∧
      (s.turn turn).2.ObeysTurns condition turns))

variable {s : Session σ} {turns others : List Turn} {condition : σ → Command → Prop}

theorem afterTurns_cons (s : Session σ) (turn : Turn) (turns : List Turn) :
    s.afterTurns (turn :: turns) = (s.turn turn).2.afterTurns turns := rfl

theorem ObeysTurns.mono {other : σ → Command → Prop} (h : s.ObeysTurns condition turns)
    (himp : ∀ store command, condition store command → other store command) :
    s.ObeysTurns other turns := by
  induction turns generalizing s with
  | nil => trivial
  | cons turn turns ih =>
    exact ⟨fun command hcommand => himp _ command (h.1 command hcommand), ih h.2⟩

theorem ObeysTurns.and {other : σ → Command → Prop} (h : s.ObeysTurns condition turns)
    (hother : s.ObeysTurns other turns) :
    s.ObeysTurns (fun store command => condition store command ∧ other store command) turns := by
  induction turns generalizing s with
  | nil => trivial
  | cons turn turns ih =>
    exact ⟨fun command hcommand => ⟨h.1 command hcommand, hother.1 command hcommand⟩, ih h.2 hother.2⟩

/-- A turn leaves the store alone or operates on it by its command. -/
theorem turn_store_cases (s : Session σ) (turn : Turn) :
    (s.turn turn).2.store = s.store ∨
      ∃ command ∈ s.turnCommand? turn, (s.turn turn).2.store = command.operate s.store := by
  cases turn with
  | move m => exact s.move_store_cases m
  | caught =>
    have hstore : (s.turn .caught).2.store = (s.move .step).2.store := ofCaught_store s.active s.step
    rw [hstore]
    exact s.move_store_cases .step
  | callback =>
    left
    simp only [Session.turn, startCallback]
    split
    · exact (calledBack s _).move_store .step
    · rfl

end Session

namespace CellStore
open Session

variable [CellStore σ] {condition : σ → Command → Prop} {invariant : σ → Prop} {s : Session σ}
  {turns : List Turn}

theorem Keeps.turn (hk : Keeps condition invariant) {turn : Turn} (h : invariant s.store)
    (hc : ∀ command ∈ s.turnCommand? turn, condition s.store command) :
    invariant (s.turn turn).2.store := by
  rcases s.turn_store_cases turn with hsame | ⟨command, hcommand, hstore⟩
  · rw [hsame]
    exact h
  · rw [hstore]
    exact hk.operate h (hc command hcommand)

theorem Keeps.afterTurns (hk : Keeps condition invariant) (h : invariant s.store)
    (ho : s.ObeysTurns condition turns) : invariant (s.afterTurns turns).store := by
  induction turns generalizing s with
  | nil => exact h
  | cons turn turns ih => exact ih (hk.turn h ho.1) ho.2

end CellStore

namespace Session
open CellStore

variable [CellStore σ] [CellStore τ] {condition : σ → Command → Prop} {invariant : σ → Prop}
  {s : Session σ} {turns : List Turn} {f : σ → τ}

theorem turn_map (ha : Abstraction condition invariant f) {turn : Turn} (h : invariant s.store)
    (hc : ∀ command ∈ s.turnCommand? turn, condition s.store command) :
    ((s.map f).turn turn).2 = (s.turn turn).2.map f ∧
      (¬turn.inspects → ((s.map f).turn turn).1 = (s.turn turn).1) := by
  cases turn with
  | move m => exact move_map ha h hc
  | caught =>
    have hcaught : (s.map f).turn .caught = abstracted (map f) (s.turn .caught) := by
      rw [Session.turn, Session.turn, step_map ha h hc, ofCaught_map]
      rfl
    exact ⟨congrArg Prod.snd hcaught, fun _ => congrArg Prod.fst hcaught⟩
  | callback =>
    have hcallbacks : (s.map f).callbacks = s.callbacks := rfl
    simp only [Session.turn, startCallback, hcallbacks]
    split
    · rename_i n _
      have hnone : ∀ command ∈ (s.calledBack n).command? .step, condition s.store command := by
        simp [command?, nextCommand?_calledBack]
      have hstep := move_map (s := s.calledBack n) ha h hnone
      exact ⟨hstep.1, fun _ => hstep.2 (by simp [Move.inspects])⟩
    · exact ⟨rfl, fun _ => rfl⟩

theorem afterTurns_map (ha : Abstraction condition invariant f) (h : invariant s.store)
    (ho : s.ObeysTurns condition turns) : (s.map f).afterTurns turns = (s.afterTurns turns).map f := by
  induction turns generalizing s with
  | nil => rfl
  | cons turn turns ih =>
    rw [afterTurns_cons, afterTurns_cons, (turn_map ha h ho.1).1]
    exact ih (ha.toKeeps.turn h ho.1) ho.2

theorem turnAnswers_map (ha : Abstraction condition invariant f) (h : invariant s.store)
    (ho : s.ObeysTurns condition turns) (hi : ∀ turn ∈ turns, ¬turn.inspects) :
    (s.map f).turnAnswers turns = s.turnAnswers turns := by
  induction turns generalizing s with
  | nil => rfl
  | cons turn turns ih =>
    have hturn := turn_map ha h ho.1
    have hrest := ih (ha.toKeeps.turn h ho.1) ho.2 fun t ht => hi t (List.mem_cons_of_mem _ ht)
    rw [turnAnswers, turnAnswers, hturn.1, hturn.2 (hi turn (by simp)), hrest]

end Session

end FormulaGrid
