import FormulaGrid.Proofs.EvaluationLoops
import FormulaGrid.Proofs.FoldedProducts
import FormulaGrid.Proofs.ShiftedText

/-!
# Malformed layouts

Whether an evaluation fails is a matter of the length of the token list and of its divisors, whatever the
tokens are. An expression of odd length has a result unless a divisor is zero, and any other lacks an
operand at its end, where it fails if no divisor made it fail before.
-/
namespace FormulaGrid

namespace Evaluation
open Formula

variable {fails : Fault → Prop} {lookup : Lookup} {tokens : List Text}

theorem ends_foldTerms_even (total : Binary64)
    (hlong : ∀ token ∈ evenTokens (tokens.drop 1), Overlong token → fails .numeralTooLong)
    (hmissing : tokens.length % 2 = 1 → fails (.formula .missingOperand)) :
    Ends fails (fun _ => tokens.length % 2 = 0) (foldTerms lookup total tokens) := by
  induction tokens using List.twoStepInduction generalizing total with
  | nil => exact ends_pure rfl
  | singleton operator => exact ends_failure (hmissing rfl)
  | cons_cons operator right rest ih _ =>
    have hparity : (operator :: right :: rest).length % 2 = rest.length % 2 := by
      simp only [List.length_cons]
      omega
    rw [hparity] at hmissing ⊢
    simp only [List.drop_succ_cons, List.drop_zero, evenTokens_cons, List.forall_mem_cons] at hlong
    rw [foldTerms]
    exact ends_bind (ends_operand hlong.1) fun _ _ => ih _ hlong.2 hmissing

theorem ends_sum_odd
    (hlong : ∀ token ∈ evenTokens tokens, Overlong token → fails .numeralTooLong)
    (hempty : tokens = [] → fails (.formula .emptyFormula))
    (hmissing : tokens ≠ [] → tokens.length % 2 = 0 → fails (.formula .missingOperand)) :
    Ends fails (fun _ => tokens.length % 2 = 1) (sum lookup tokens) := by
  cases tokens with
  | nil => exact ends_failure (hempty rfl)
  | cons first rest =>
    rw [evenTokens_cons, List.forall_mem_cons] at hlong
    have hparity : rest.length % 2 = 1 → (first :: rest).length % 2 = 0 := by
      simp only [List.length_cons]
      omega
    apply ends_bind (ends_operand hlong.1)
    intro x _
    apply (ends_foldTerms_even x hlong.2 fun h => hmissing (by simp) (hparity h)).mono
    intro _ heven
    simp only [List.length_cons]
    omega

/-- An expression gets a result only from an odd number of tokens and without a zero among its divisors. -/
theorem ends_expression
    (hlong : ∀ token ∈ evenTokens tokens, Overlong token → fails .numeralTooLong)
    (hempty : tokens = [] → fails (.formula .emptyFormula))
    (hzero : ZeroDivisor lookup tokens → fails (.formula .divisionByZero))
    (hmissing : ¬ZeroDivisor lookup tokens → tokens ≠ [] → tokens.length % 2 = 0 →
      fails (.formula .missingOperand)) :
    Ends fails (fun _ => ¬ZeroDivisor lookup tokens ∧ tokens.length % 2 = 1)
      (reading lookup (.expression tokens)) := by
  cases tokens with
  | nil => exact ends_failure (hempty rfl)
  | cons first rest =>
    have hfirst := ends_folds hlong hzero fun hnone hodd =>
      hmissing hnone (by simp) (by simp only [List.length_cons]; omega)
    apply ends_bind hfirst
    rintro terms ⟨hnone, hfolds⟩
    have hterms := fun token htoken h => hlong token (hfolds.overlong token htoken h) h
    have hsum : Ends fails (fun _ => terms.length % 2 = 1) (sum lookup terms) := by
      apply ends_sum_odd hterms
      · exact fun h => absurd h hfolds.ne_nil
      · exact fun _ heven => hmissing hnone (by simp) (hfolds.length_mod_two ▸ heven)
    apply ends_bind hsum
    intro total hodd
    exact ends_pure ⟨hnone, hfolds.length_mod_two ▸ hodd⟩

/-- No reading fails at a reference, since a text that has not the form of one is a literal. -/
theorem ends_reading_valid (lookup : Lookup) (formula : Formula) :
    Ends (fun fault => ∀ ref, fault ≠ .formula (.invalidReference ref)) (fun _ => True)
      (reading lookup formula) := by
  cases formula with
  | value token => exact (ends_resolve fun _ => nofun).mono fun _ _ => trivial
  | expression tokens =>
    apply (ends_expression (fun _ _ _ => nofun) (fun _ => nofun) (fun _ => nofun) fun _ _ _ => nofun).mono
    exact fun _ _ => trivial

end Evaluation

namespace Formula
open Evaluation

section Layouts

variable (lookup : Lookup) {tokens : List Text} (hshort : ∀ token ∈ evenTokens tokens, ¬Overlong token)
include hshort

/-- The outcome of an expression, as far as its layout decides it. -/
theorem evaluate_expression :
    (∃ e, (expression tokens).evaluate lookup = .ok e ∧
      ¬ZeroDivisor lookup tokens ∧ tokens.length % 2 = 1) ∨
    (expression tokens).evaluate lookup = .error (.formula .emptyFormula) ∧ tokens = [] ∨
    (expression tokens).evaluate lookup = .error (.formula .divisionByZero) ∧
      ZeroDivisor lookup tokens ∨
    (expression tokens).evaluate lookup = .error (.formula .missingOperand) ∧
      ¬ZeroDivisor lookup tokens ∧ tokens ≠ [] ∧ tokens.length % 2 = 0 := by
  let fails (fault : Fault) : Prop :=
    fault = .formula .emptyFormula ∧ tokens = [] ∨
      fault = .formula .divisionByZero ∧ ZeroDivisor lookup tokens ∨
      fault = .formula .missingOperand ∧
        ¬ZeroDivisor lookup tokens ∧ tokens ≠ [] ∧ tokens.length % 2 = 0
  have hends : Ends fails (fun _ => ¬ZeroDivisor lookup tokens ∧ tokens.length % 2 = 1)
      (reading lookup (.expression tokens)) := by
    apply ends_expression
    · exact fun token htoken h => absurd h (hshort token htoken)
    · exact fun hempty => Or.inl ⟨rfl, hempty⟩
    · exact fun hzero => Or.inr (Or.inl ⟨rfl, hzero⟩)
    · exact fun hnone hne heven => Or.inr (Or.inr ⟨rfl, hnone, hne, heven⟩)
  rcases evaluate_of_ends hends with hresult | ⟨fault, hevaluate, hfails⟩
  · exact Or.inl hresult
  · rw [hevaluate]
    rcases hfails with ⟨rfl, h⟩ | ⟨rfl, h⟩ | ⟨rfl, h⟩
    · exact Or.inr (Or.inl ⟨rfl, h⟩)
    · exact Or.inr (Or.inr (Or.inl ⟨rfl, h⟩))
    · exact Or.inr (Or.inr (Or.inr ⟨rfl, h⟩))

theorem evaluate_of_even (hne : tokens ≠ []) (heven : tokens.length % 2 = 0) :
    (expression tokens).evaluate lookup =
      .error (.formula (if ZeroDivisor lookup tokens then .divisionByZero else .missingOperand)) := by
  rcases evaluate_expression lookup hshort with
    ⟨_, _, _, hodd⟩ | ⟨_, hempty⟩ | ⟨hevaluate, hzero⟩ | ⟨hevaluate, hnone, _⟩
  · omega
  · exact absurd hempty hne
  · rw [hevaluate, if_pos hzero]
  · rw [hevaluate, if_neg hnone]

theorem evaluate_of_odd (hodd : tokens.length % 2 = 1) :
    if ZeroDivisor lookup tokens then
      (expression tokens).evaluate lookup = .error (.formula .divisionByZero)
    else ∃ e, (expression tokens).evaluate lookup = .ok e := by
  rcases evaluate_expression lookup hshort with
    ⟨e, hevaluate, hnone, _⟩ | ⟨_, rfl⟩ | ⟨hevaluate, hzero⟩ | ⟨_, _, _, heven⟩
  · rw [if_neg hnone]
    exact ⟨e, hevaluate⟩
  · cases hodd
  · rw [if_pos hzero]
    exact hevaluate
  · omega

end Layouts

/-- Evaluation fails exactly on malformed layouts. Both passes come to an end. An empty list is an empty
formula; a list of even length fails by zero or lacks an operand; a list of odd length has a result unless
the operand after a slash of the first pass reads as zero, when it fails by zero. Neither an evaluation nor
a shift ever takes a reference for invalid. -/
theorem evaluate_fails_on_malformed_layouts (lookup : Lookup) (tokens : List Text) :
    ((∀ cells outcome, Loops (foldTurn lookup) (1, tokens) cells outcome ↔
        outcome = products lookup tokens cells) ∧
      ∀ first rest total cells outcome, Loops (addTurn lookup (first :: rest)) (1, total) cells outcome ↔
        outcome = foldTerms lookup total rest cells) ∧
    ((∀ token ∈ evenTokens tokens, ¬Overlong token) →
      (tokens = [] → (expression tokens).evaluate lookup = .error (.formula .emptyFormula)) ∧
      (tokens ≠ [] → tokens.length % 2 = 0 → (expression tokens).evaluate lookup =
        .error (.formula (if ZeroDivisor lookup tokens then .divisionByZero else .missingOperand))) ∧
      (tokens.length % 2 = 1 →
        if ZeroDivisor lookup tokens then
          (expression tokens).evaluate lookup = .error (.formula .divisionByZero)
        else ∃ e, (expression tokens).evaluate lookup = .ok e)) ∧
    (ZeroDivisor lookup tokens ↔ ∃ k right, tokens[2 * k + 1]? = some ['/'] ∧
      tokens[2 * k + 2]? = some right ∧ (number lookup right).isZero) ∧
    (FormulaError.emptyFormula.message = "Empty formula".toList ∧
      FormulaError.missingOperand.message = "Missing operand".toList) ∧
    (∀ formula ref, Formula.evaluate formula lookup ≠ .error (.formula (.invalidReference ref))) ∧
    ∀ t rows cols ref, RefShift.shift t rows cols ≠ .error (.formula (.invalidReference ref)) := by
  refine ⟨⟨fun _ _ => loops_foldTurn_iff, fun _ _ _ _ _ => loops_addTurn_iff⟩, ?_, zeroDivisor_iff,
    ⟨rfl, rfl⟩, ?_, ?_⟩
  · intro hshort
    refine ⟨?_, evaluate_of_even lookup hshort, evaluate_of_odd lookup hshort⟩
    rintro rfl
    rfl
  · intro formula ref hevaluate
    rcases evaluate_of_ends (ends_reading_valid lookup formula) with
      ⟨e, hok, _⟩ | ⟨fault, herror, hvalid⟩
    · rw [hok] at hevaluate
      cases hevaluate
    · rw [herror] at hevaluate
      exact hvalid ref (Except.error.inj hevaluate)
  · intro t rows cols ref hshift
    cases RefShift.shift_fault hshift

/-- An operator at the end is missed only if no divisor is zero, and one in the place of an operand is
read like any other text. -/
theorem evaluate_fails_on_malformed_layouts_trailing :
    let trailing : List Text := [['1'], ['/'], ['B', '2'], ['*']]
    let doubled : List Text := [['1'], ['/'], ['+']]
    (∀ token ∈ evenTokens trailing, ¬Overlong token) ∧ (∀ token ∈ evenTokens doubled, ¬Overlong token) ∧
      (expression trailing).evaluate (fun _ => ['0']) = .error (.formula .divisionByZero) ∧
      (expression trailing).evaluate (fun _ => ['2']) = .error (.formula .missingOperand) ∧
      ∃ e, (expression doubled).evaluate (fun _ => ['2']) = .ok e := by
  intro trailing doubled
  have hone : ¬Overlong ['1'] := not_overlong_of_not_isReference (by decide)
  have hsign : ¬Overlong ['+'] := not_overlong_of_not_isReference (by decide)
  have hreference : ¬Overlong ['B', '2'] :=
    not_overlong_of_short (show Reference.split? _ = some (['B'], ['2']) by decide) (by decide)
  have htrailing : ∀ token ∈ evenTokens trailing, ¬Overlong token := by
    simp [trailing, evenTokens, hone, hreference]
  have hdoubled : ∀ token ∈ evenTokens doubled, ¬Overlong token := by
    simp [doubled, evenTokens, hone, hsign]
  obtain ⟨-, hzero, -⟩ := evaluate_fails_on_malformed_layouts (fun _ => ['0']) trailing
  obtain ⟨-, hnonzero, -⟩ := evaluate_fails_on_malformed_layouts (fun _ => ['2']) trailing
  obtain ⟨-, hresult, -⟩ := evaluate_fails_on_malformed_layouts (fun _ => ['2']) doubled
  refine ⟨htrailing, hdoubled, ?_, ?_, ?_⟩
  · rw [(hzero htrailing).2.1 (by decide) (by decide), if_pos (by decide +kernel)]
  · rw [(hnonzero htrailing).2.1 (by decide) (by decide), if_neg (by decide +kernel)]
  · have hodd := (hresult hdoubled).2.2 (by decide)
    rwa [if_neg (by decide +kernel)] at hodd

end Formula

end FormulaGrid
