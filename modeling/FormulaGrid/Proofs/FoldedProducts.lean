import FormulaGrid.Proofs.Precedence

/-!
# Folded products

What the first pass makes of a token list, whatever stands at the places of the operators and of the
operands. A star or a slash at the place of an operator takes three tokens to one, so that the parity of the
length stays, and no operand comes in but the result of a product.
-/
namespace FormulaGrid

namespace Formula

/-- What comes directly after the slashes among the operators of a list that begins with an operator. -/
def slashed : List Text → List Text
  | operator :: right :: rest =>
    if operator = ['/'] then right :: slashed rest else slashed rest
  | _ => []

theorem slashed_cons_cons (operator right : Text) (rest : List Text) :
    slashed (operator :: right :: rest) =
      if operator = ['/'] then right :: slashed rest else slashed rest := rfl

theorem mem_slashed_iff {tokens : List Text} {right : Text} : right ∈ slashed tokens ↔
    ∃ k, tokens[2 * k]? = some ['/'] ∧ tokens[2 * k + 1]? = some right := by
  induction tokens using List.twoStepInduction with
  | nil => simp [slashed]
  | singleton operator => simp [slashed]
  | cons_cons operator next rest ih _ =>
    rw [← Nat.or_exists_add_one, slashed_cons_cons]
    simp only [Nat.mul_add, Nat.mul_zero, Nat.mul_one, Nat.zero_add, List.getElem?_cons_zero,
      List.getElem?_cons_succ, Option.some.injEq, ← ih]
    by_cases hslash : operator = ['/']
    · simp [hslash, eq_comm]
    · simp [hslash]

/-- A slash at the place of an operator has an operand after it that is zero. -/
def ZeroDivisor (lookup : Lookup) (tokens : List Text) : Prop :=
  ∃ right ∈ slashed (tokens.drop 1), (number lookup right).isZero

instance (lookup : Lookup) (tokens : List Text) : Decidable (ZeroDivisor lookup tokens) :=
  inferInstanceAs (Decidable (∃ right ∈ slashed (tokens.drop 1), (number lookup right).isZero))

section ZeroDivisor

variable {lookup : Lookup} {left operator right : Text} {rest : List Text}

theorem not_zeroDivisor_single : ¬ZeroDivisor lookup [left] := by simp [ZeroDivisor, slashed]

theorem not_zeroDivisor_pair : ¬ZeroDivisor lookup [left, operator] := by simp [ZeroDivisor, slashed]

theorem zeroDivisor_slash : ZeroDivisor lookup (left :: ['/'] :: right :: rest) ↔
    (number lookup right).isZero ∨ ZeroDivisor lookup (right :: rest) := by
  simp [ZeroDivisor, slashed]

theorem zeroDivisor_other (hover : operator ≠ ['/']) :
    ZeroDivisor lookup (left :: operator :: right :: rest) ↔ ZeroDivisor lookup (right :: rest) := by
  simp [ZeroDivisor, slashed, hover]

theorem zeroDivisor_iff {tokens : List Text} : ZeroDivisor lookup tokens ↔
    ∃ k right, tokens[2 * k + 1]? = some ['/'] ∧ tokens[2 * k + 2]? = some right ∧
      (number lookup right).isZero := by
  simp only [ZeroDivisor, mem_slashed_iff, List.getElem?_drop]
  constructor
  · rintro ⟨right, ⟨k, hslash, hright⟩, hzero⟩
    exact ⟨k, right, by rwa [Nat.add_comm], by rwa [Nat.add_comm] at hright, hzero⟩
  · rintro ⟨k, right, hslash, hright, hzero⟩
    exact ⟨right, ⟨k, by rwa [Nat.add_comm], by rwa [Nat.add_comm]⟩, hzero⟩

end ZeroDivisor

end Formula

namespace Evaluation
open Formula

/-- The lists that the first pass makes of others. -/
inductive Folds (lookup : Lookup) : List Text → List Text → Prop
  | single {left} : Folds lookup [left] [left]
  | pair {left operator} (htimes : operator ≠ ['*']) (hover : operator ≠ ['/']) :
    Folds lookup [left, operator] [left, operator]
  | product {left right rest terms}
    (h : Folds lookup (NumberDisplay.display ((number lookup left).mul (number lookup right)) :: rest)
      terms) : Folds lookup (left :: ['*'] :: right :: rest) terms
  | quotient {left right rest terms}
    (h : Folds lookup (NumberDisplay.display ((number lookup left).div (number lookup right)) :: rest)
      terms) : Folds lookup (left :: ['/'] :: right :: rest) terms
  | other {left operator right rest terms} (htimes : operator ≠ ['*']) (hover : operator ≠ ['/'])
    (h : Folds lookup (right :: rest) terms) :
    Folds lookup (left :: operator :: right :: rest) (left :: operator :: terms)

variable {fails : Fault → Prop} {lookup : Lookup} {left : Text} {tokens terms : List Text}

theorem Folds.length_mod_two (h : Folds lookup tokens terms) :
    terms.length % 2 = tokens.length % 2 := by
  induction h with
  | single => rfl
  | pair => rfl
  | product _ ih => simp only [ih, List.length_cons]; omega
  | quotient _ ih => simp only [ih, List.length_cons]; omega
  | other _ _ _ ih => simp only [List.length_cons] at ih ⊢; omega

theorem Folds.ne_nil (h : Folds lookup tokens terms) : terms ≠ [] := by
  induction h with
  | product _ ih => exact ih
  | quotient _ ih => exact ih
  | _ => simp

/-- An overlong operand that is left was there before, since the result of a product is none. -/
theorem Folds.overlong (h : Folds lookup tokens terms) :
    ∀ token ∈ evenTokens terms, Overlong token → token ∈ evenTokens tokens := by
  have hproduct {left operator right : Text} {rest : List Text} {x : Binary64} {token : Text}
      (hlong : Overlong token) (h : token ∈ evenTokens (NumberDisplay.display x :: rest)) :
      token ∈ evenTokens (left :: operator :: right :: rest) := by
    rw [evenTokens_cons, mem_cons_of_overlong hlong (not_overlong_display x)] at h
    rw [evenTokens_cons, List.drop_succ_cons, List.drop_zero, evenTokens_cons]
    exact List.mem_cons_of_mem left (List.mem_cons_of_mem right h)
  induction h with
  | single => exact fun token htoken _ => htoken
  | pair => exact fun token htoken _ => htoken
  | product _ ih => exact fun token htoken hlong => hproduct hlong (ih token htoken hlong)
  | quotient _ ih => exact fun token htoken hlong => hproduct hlong (ih token htoken hlong)
  | @other left operator _ _ _ _ _ _ ih =>
    intro token htoken hlong
    simp only [evenTokens_cons left, List.drop_succ_cons, List.drop_zero, List.mem_cons] at htoken ⊢
    exact htoken.imp_right fun htoken => ih token htoken hlong

/-- The first pass fails by zero exactly when a divisor is zero. It lacks an operand only in a list of even
length, and else makes a list that the second pass can go on with. -/
theorem ends_folds
    (hlong : ∀ token ∈ evenTokens (left :: tokens), Overlong token → fails .numeralTooLong)
    (hzero : ZeroDivisor lookup (left :: tokens) → fails (.formula .divisionByZero))
    (hmissing : ¬ZeroDivisor lookup (left :: tokens) → tokens.length % 2 = 1 →
      fails (.formula .missingOperand)) :
    Ends fails (fun terms => ¬ZeroDivisor lookup (left :: tokens) ∧ Folds lookup (left :: tokens) terms)
      (foldProducts lookup left tokens) := by
  have hparity (n : Nat) : (n + 1 + 1) % 2 = n % 2 := by omega
  simp only [evenTokens_cons, List.forall_mem_cons] at hlong
  induction left, tokens using foldProducts_induction with
  | nil left => exact ends_pure ⟨not_zeroDivisor_single, .single⟩
  | product_nil left =>
    exact ends_bind (ends_operand hlong.1) fun _ _ => ends_failure (hmissing not_zeroDivisor_pair rfl)
  | quotient_nil left =>
    exact ends_bind (ends_operand hlong.1) fun _ _ => ends_failure (hmissing not_zeroDivisor_pair rfl)
  | other_nil left operator htimes hover =>
    rw [foldProducts.eq_4 _ _ _ htimes hover]
    exact ends_pure ⟨not_zeroDivisor_pair, .pair htimes hover⟩
  | product left right rest ih =>
    simp only [List.drop_succ_cons, List.drop_zero, evenTokens_cons, List.forall_mem_cons] at hlong
    rw [zeroDivisor_other (by decide)] at hzero hmissing ⊢
    simp only [List.length_cons, hparity] at hmissing
    rw [foldProducts_times_cons]
    apply ends_bind (ends_operand hlong.1)
    rintro x rfl
    apply ends_bind (ends_operand hlong.2.1)
    rintro y rfl
    apply (ih (NumberDisplay.display _) hzero hmissing ⟨(absurd · (not_overlong_display _)), hlong.2.2⟩).mono
    exact fun terms hterms => ⟨hterms.1, .product hterms.2⟩
  | quotient left right rest ih =>
    simp only [List.drop_succ_cons, List.drop_zero, evenTokens_cons, List.forall_mem_cons] at hlong
    simp only [List.length_cons, hparity] at hmissing
    rw [foldProducts_over_cons]
    apply ends_bind (ends_operand hlong.1)
    rintro x rfl
    apply ends_bind (ends_operand hlong.2.1)
    rintro y rfl
    apply ends_bind (ends_divide fun h => hzero (zeroDivisor_slash.mpr (Or.inl h)))
    rintro z ⟨rfl, hright⟩
    have hnext : ZeroDivisor lookup (left :: ['/'] :: right :: rest) ↔
        ZeroDivisor lookup (right :: rest) := by simp [zeroDivisor_slash, hright]
    rw [hnext] at hzero hmissing ⊢
    apply (ih (NumberDisplay.display _) hzero hmissing ⟨(absurd · (not_overlong_display _)), hlong.2.2⟩).mono
    exact fun terms hterms => ⟨hterms.1, .quotient hterms.2⟩
  | other left operator right rest htimes hover ih =>
    simp only [List.drop_succ_cons, List.drop_zero, evenTokens_cons, List.forall_mem_cons] at hlong
    rw [zeroDivisor_other hover] at hzero hmissing ⊢
    rw [foldProducts.eq_5 _ _ _ _ _ htimes hover]
    simp only [List.length_cons, hparity] at hmissing
    apply ends_bind (ih hzero hmissing hlong.2)
    rintro terms ⟨hnone, hterms⟩
    exact ends_pure ⟨hnone, .other htimes hover hterms⟩

end Evaluation

end FormulaGrid
