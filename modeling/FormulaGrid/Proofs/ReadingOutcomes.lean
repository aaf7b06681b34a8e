import FormulaGrid.Evaluation

/-!
# Outcomes of readings

What all results of a reading have in common and which faults can stop it, whatever cells are noted before
it. The outcome of a sequence is put together from those of its parts.
-/
namespace FormulaGrid

namespace Evaluation

variable {α β : Type} {fails : Fault → Prop} {property : α → Prop}

/-- Every result of a reading has a property, and only certain faults stop it. -/
def Ends (fails : Fault → Prop) (property : α → Prop) (m : Reading α) : Prop :=
  ∀ cells, match m cells with
    | .ok (a, _) => property a
    | .error fault => fails fault

theorem ends_pure {a : α} (h : property a) : Ends fails property (pure a) :=
  fun _ => h

theorem ends_failure {e : FormulaError} (h : fails (.formula e)) :
    Ends fails property (failure e) :=
  fun _ => h

theorem ends_bind {next : β → Prop} {m : Reading α} {f : α → Reading β}
    (hm : Ends fails property m) (hf : ∀ a, property a → Ends fails next (f a)) :
    Ends fails next (m >>= f) := by
  intro cells
  have hfirst := hm cells
  simp only [bind, StateT.bind, Except.bind]
  cases hr : m cells with
  | error fault => simpa [hr] using hfirst
  | ok result =>
    rw [hr] at hfirst
    exact hf result.1 hfirst result.2

theorem Ends.mono {other : α → Prop} {m : Reading α} (h : Ends fails property m)
    (himp : ∀ a, property a → other a) : Ends fails other m := by
  intro cells
  have hm := h cells
  cases hr : m cells with
  | error fault => simpa [hr] using hm
  | ok result => exact himp result.1 (by simpa [hr] using hm)

/-- A division fails by zero only. -/
theorem ends_divide {x y : Binary64} (hzero : y.isZero → fails (.formula .divisionByZero)) :
    Ends fails (fun z => z = x.div y ∧ y.isZero = false) (divide x y) := by
  unfold divide
  split
  · exact ends_failure (hzero ‹_›)
  · exact ends_pure ⟨rfl, by simpa using ‹¬y.isZero = true›⟩

end Evaluation

namespace Formula
open Evaluation

/-- An evaluation ends as its reading does. -/
theorem evaluate_of_ends {formula : Formula} {lookup : Lookup} {fails : Fault → Prop}
    {property : Text → Prop} (h : Ends fails property (reading lookup formula)) :
    (∃ e, formula.evaluate lookup = .ok e ∧ property e.text) ∨
      ∃ fault, formula.evaluate lookup = .error fault ∧ fails fault := by
  have hends := h []
  unfold evaluate
  cases hr : reading lookup formula [] with
  | ok result =>
    rw [hr] at hends
    exact Or.inl ⟨_, rfl, hends⟩
  | error fault =>
    rw [hr] at hends
    exact Or.inr ⟨fault, rfl, hends⟩

end Formula

end FormulaGrid
