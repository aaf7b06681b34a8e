import FormulaGrid.Proofs.FoldedProducts

/-!
# Mixed precedence

A body with a plus or minus sign is not split at its stars and slashes, so that an operand may still hold
some. Such an operand is no reference. If it begins with no numeral either, it is NaN, and so is the whole
formula.
-/
namespace FormulaGrid

namespace Formula
open Binary64

variable {isOperator : Char → Bool} {lookup : Lookup} {token right : Text} {tokens : List Text}

/-- In a body split at its signs a slash that stands alone is followed by a sign. -/
theorem sign_of_mem_slashed (hchain : tokens.IsChain fun a b =>
      (∃ c, isAdditive c ∧ a = [c]) ∨ ∃ c, isAdditive c ∧ b = [c])
    (h : right ∈ slashed tokens) : ∃ c, isAdditive c ∧ right = [c] := by
  induction tokens using List.twoStepInduction with
  | nil => cases h
  | singleton operator => cases h
  | cons_cons operator next rest ih _ =>
    obtain ⟨hpair, htail⟩ := List.isChain_cons_cons.mp hchain
    have hrest := htail.tail
    rw [slashed_cons_cons] at h
    split at h
    · rename_i hslash
      rcases List.mem_cons.mp h with rfl | h
      · refine hpair.resolve_left ?_
        rintro ⟨c, hc, rfl⟩
        obtain rfl : c = '/' := by simpa using hslash
        exact absurd hc (by decide)
      · exact ih hrest h
    · exact ih hrest h

theorem number_of_not_isReference (h : Reference.isReference (Text.trim token) = false) :
    number lookup token = readNumber (Text.trim token) := by
  rw [number, resolved, cell?, h]
  rfl

/-- An operand that is no reference and begins with no numeral is NaN. -/
theorem number_eq_nan (href : Reference.isReference (Text.trim token) = false)
    (hscan : Numeral.scan (Text.trim token) = none) : number lookup token = .nan := by
  rw [number_of_not_isReference href, readNumber, Text.trimStart_trim, hscan]

theorem number_sign {c : Char} (hc : isAdditive c) : number lookup [c] = .nan := by
  rcases eq_of_isAdditive hc with rfl | rfl
  · exact number_eq_nan (by decide) (by decide)
  · exact number_eq_nan (by decide) (by decide)

theorem number_display_nan : number lookup (NumberDisplay.display .nan) = .nan :=
  number_display lookup .nan

/-- Some operand is NaN. -/
def Tainted (lookup : Lookup) (tokens : List Text) : Prop :=
  ∃ token ∈ evenTokens tokens, number lookup token = .nan

theorem tainted_cons : Tainted lookup (token :: tokens) ↔
    number lookup token = .nan ∨ Tainted lookup (tokens.drop 1) := by
  simp [Tainted, evenTokens_cons]

end Formula

namespace Evaluation
open Formula Binary64

variable {fails : Fault → Prop} {lookup : Lookup} {left : Text} {tokens : List Text}

theorem mul_eq_nan {x y : Binary64} (h : x = .nan ∨ y = .nan) : x.mul y = .nan := by
  rcases h with rfl | rfl
  · rfl
  · cases x <;> rfl

theorem div_eq_nan {x y : Binary64} (h : x = .nan ∨ y = .nan) : x.div y = .nan := by
  rcases h with rfl | rfl
  · rfl
  · cases x <;> rfl

theorem add_eq_nan {x y : Binary64} (h : x = .nan ∨ y = .nan) : x.add y = .nan := by
  rcases h with rfl | rfl
  · rfl
  · cases x <;> rfl

theorem sub_eq_nan {x y : Binary64} (h : x = .nan ∨ y = .nan) : x.sub y = .nan :=
  add_eq_nan (h.imp_right (congrArg neg))

/-- A product with NaN is NaN. -/
theorem tainted_of_product {result : Binary64} {operator right : Text} {rest : List Text}
    (hresult : number lookup left = .nan ∨ number lookup right = .nan → result = .nan)
    (h : Tainted lookup (left :: operator :: right :: rest)) :
    Tainted lookup (NumberDisplay.display result :: rest) := by
  rw [tainted_cons, List.drop_succ_cons, List.drop_zero, tainted_cons, ← or_assoc] at h
  rw [tainted_cons]
  rcases h with h | h
  · exact Or.inl (by rw [hresult h, number_display_nan])
  · exact Or.inr h

/-- The first pass loses no NaN. -/
theorem Folds.tainted {terms : List Text} (h : Folds lookup tokens terms) :
    Tainted lookup tokens → Tainted lookup terms := by
  induction h with
  | single => exact id
  | pair => exact id
  | product _ ih => exact fun htainted => ih (tainted_of_product mul_eq_nan htainted)
  | quotient _ ih => exact fun htainted => ih (tainted_of_product div_eq_nan htainted)
  | other _ _ _ ih =>
    rw [tainted_cons, tainted_cons]
    exact Or.imp_right ih

/-- The second pass is NaN from the first NaN on. -/
theorem ends_foldTerms_nan (hmissing : fails (.formula .missingOperand)) (tokens : List Text) :
    ∀ total, (∀ token ∈ evenTokens (tokens.drop 1), Overlong token → fails .numeralTooLong) →
      total = .nan ∨ Tainted lookup (tokens.drop 1) →
      Ends fails (· = .nan) (foldTerms lookup total tokens) := by
  have hnone : ¬Tainted lookup [] := by simp [Tainted, evenTokens]
  induction tokens using List.twoStepInduction with
  | nil => exact fun total _ h => ends_pure (h.resolve_right hnone)
  | singleton operator => exact fun _ _ _ => ends_failure hmissing
  | cons_cons operator right rest ih _ =>
    intro total hlong h
    simp only [List.drop_succ_cons, List.drop_zero, evenTokens_cons, List.forall_mem_cons,
      tainted_cons] at hlong h
    rw [foldTerms]
    apply ends_bind (ends_operand hlong.1)
    rintro y rfl
    apply ih _ hlong.2
    rw [← or_assoc] at h
    apply h.imp_left
    intro hnan
    rw [add_eq_nan hnan, sub_eq_nan hnan, ite_self]

/-- A list of tokens with a NaN among its operands evaluates to NaN, or lacks an operand. -/
theorem ends_reading_nan (hmissing : fails (.formula .missingOperand))
    (hlong : ∀ token ∈ evenTokens tokens, Overlong token → fails .numeralTooLong)
    (hslashed : ∀ right ∈ slashed (tokens.drop 1), (number lookup right).isZero = false)
    (htainted : Tainted lookup tokens) :
    Ends fails (· = NumberDisplay.display .nan) (reading lookup (.expression tokens)) := by
  have hnone : ¬ZeroDivisor lookup tokens := by
    rintro ⟨right, hright, hzero⟩
    simp [hslashed right hright] at hzero
  cases tokens with
  | nil => simp [Tainted, evenTokens] at htainted
  | cons first tokens =>
    apply ends_bind (ends_folds hlong (absurd · hnone) fun _ _ => hmissing)
    rintro terms ⟨-, hfolds⟩
    have hsum : Ends fails (· = .nan) (sum lookup terms) := by
      have htainted := hfolds.tainted htainted
      have hterms := fun token htoken h => hlong token (hfolds.overlong token htoken h) h
      cases terms with
      | nil => simp [Tainted, evenTokens] at htainted
      | cons term terms =>
        rw [tainted_cons] at htainted
        rw [evenTokens_cons, List.forall_mem_cons] at hterms
        apply ends_bind (ends_operand hterms.1)
        rintro x rfl
        exact ends_foldTerms_nan hmissing terms _ hterms.2 htainted
    apply ends_bind hsum
    rintro total rfl
    exact ends_pure rfl

end Evaluation

namespace Formula
open Evaluation

variable {lookup : Lookup} {token body : Text}

/-- A reference holds no star and no slash. -/
theorem not_isReference_of_mem {c : Char} (hc : isMultiplicative c) (h : c ∈ token) :
    Reference.isReference (Text.trim token) = false := by
  have hblank : Text.isBlank c = false := by
    rcases eq_of_isMultiplicative hc with rfl | rfl <;> decide
  have hmem : c ∈ Text.trim token := Text.mem_trim h hblank
  rw [Bool.eq_false_iff]
  intro href
  obtain ⟨label, digits, htrim, hspells⟩ := RefShift.exists_spells href
  rw [htrim] at hmem
  rw [hspells.not_isOperator (fun _ => RefShift.kind_of_isMultiplicative) c hmem] at hc
  cases hc

/-- A body with signs is split at them and no further. -/
theorem parse_of_signs {t : Text} (h : 1 < (tokenize isAdditive (Text.trim t)).length) :
    parse ('=' :: t) = some (.expression (tokenize isAdditive (Text.trim t))) :=
  congrArg some (ofBody_of_signs fun hpiece => by simp [hpiece] at h)

/-- Mixed precedence with an operand that begins with no numeral never yields a number. If a body splits
into more than one piece at its signs, and one of its operands holds a star or a slash and begins with no
numeral, then the formula is NaN or lacks an operand, whatever is looked up. No operand may be a reference
with more row digits than are converted. -/
theorem mixed_precedence_nan (lookup : Lookup) {t : Text}
    (hpieces : 1 < (tokenize isAdditive (Text.trim t)).length)
    (hmixed : ∃ token ∈ evenTokens (tokenize isAdditive (Text.trim t)),
      ('*' ∈ token ∨ '/' ∈ token) ∧ Numeral.scan (Text.trim token) = none)
    (hshort : ∀ token ∈ evenTokens (tokenize isAdditive (Text.trim t)), ¬Overlong token) :
    ∃ formula, parse ('=' :: t) = some formula ∧
      ((∃ cells, formula.evaluate lookup = .ok ⟨"NaN".toList, cells⟩) ∨
        formula.evaluate lookup = .error (.formula .missingOperand)) := by
  refine ⟨_, parse_of_signs hpieces, ?_⟩
  have hchain := isChain_tokenize isAdditive (Text.trim t)
  generalize tokenize isAdditive (Text.trim t) = tokens at hmixed hshort hchain
  have htainted : Tainted lookup tokens := by
    obtain ⟨token, htoken, hstar | hslash, hscan⟩ := hmixed
    · exact ⟨token, htoken, number_eq_nan (not_isReference_of_mem (by decide) hstar) hscan⟩
    · exact ⟨token, htoken, number_eq_nan (not_isReference_of_mem (by decide) hslash) hscan⟩
  have hslashed : ∀ right ∈ slashed (tokens.drop 1), (number lookup right).isZero = false := by
    intro right hright
    obtain ⟨c, hc, rfl⟩ := sign_of_mem_slashed (hchain.drop 1) hright
    rw [number_sign hc]
    rfl
  have hends : Ends (· = .formula .missingOperand) (· = NumberDisplay.display .nan)
      (reading lookup (.expression tokens)) :=
    ends_reading_nan rfl (fun token htoken h => absurd h (hshort token htoken)) hslashed htainted
  rcases evaluate_of_ends hends with ⟨⟨text, cells⟩, hevaluate, htext⟩ | ⟨fault, hevaluate, rfl⟩
  · obtain rfl : text = NumberDisplay.display .nan := htext
    exact Or.inl ⟨cells, hevaluate⟩
  · exact Or.inr hevaluate

theorem mixed_precedence_nan_references :
    let tokens : List Text := [['A', '1'], ['+'], "B2*C3".toList]
    tokenize isAdditive (Text.trim "A1+B2*C3".toList) = tokens ∧ 1 < tokens.length ∧
      (∃ token ∈ evenTokens tokens,
        ('*' ∈ token ∨ '/' ∈ token) ∧ Numeral.scan (Text.trim token) = none) ∧
      (∀ token ∈ evenTokens tokens, ¬Overlong token) ∧
      ∃ cells, (Formula.expression tokens).evaluate (fun _ => ['2']) = .ok ⟨"NaN".toList, cells⟩ := by
  intro tokens
  have htokens : tokenize isAdditive (Text.trim "A1+B2*C3".toList) = tokens := by decide
  have hmixed : ∃ token ∈ evenTokens tokens,
      ('*' ∈ token ∨ '/' ∈ token) ∧ Numeral.scan (Text.trim token) = none :=
    ⟨"B2*C3".toList, by decide, by decide, by decide⟩
  have hreference : ¬Overlong ['A', '1'] :=
    not_overlong_of_short (show Reference.split? _ = some (['A'], ['1']) by decide) (by decide)
  have hproduct : ¬Overlong "B2*C3".toList :=
    not_overlong_of_not_isReference (not_isReference_of_mem (c := '*') (by decide) (by decide))
  have hshort : ∀ token ∈ evenTokens tokens, ¬Overlong token :=
    List.forall_mem_cons.mpr ⟨hreference, List.forall_mem_singleton.mpr hproduct⟩
  obtain ⟨formula, hparse, hevaluate⟩ := mixed_precedence_nan (fun _ => ['2'])
    (t := "A1+B2*C3".toList) (by rw [htokens]; decide) (by rwa [htokens]) (by rwa [htokens])
  rw [parse_of_signs (by rw [htokens]; decide), htokens] at hparse
  obtain rfl := Option.some.inj hparse
  refine ⟨htokens, by decide, hmixed, hshort, hevaluate.resolve_right ?_⟩
  have hok : ((Formula.expression tokens).evaluate fun _ => ['2']).isOk := by decide +kernel
  intro hmissing
  simp [hmissing, Except.isOk, Except.toBool] at hok

/-- An operand that begins with a numeral is read as this numeral, and the rest does not count. -/
theorem mixed_literals :
    tokenize isAdditive (Text.trim "1+2*3".toList) = [['1'], ['+'], "2*3".toList] ∧
      parse "=1+2*3".toList = some (.expression [['1'], ['+'], "2*3".toList]) ∧
      (Formula.expression [['1'], ['+'], "2*3".toList]).evaluate (fun _ => []) = .ok ⟨['3'], []⟩ := by
  decide +kernel

end Formula

end FormulaGrid
