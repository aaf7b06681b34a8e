import FormulaGrid.Proofs.MovedFormulas
import FormulaGrid.Proofs.NumeralGrammar

/-!
# Moved literals

The only capital letter that digits can follow in a numeral is the mark of its exponent. Shifting a formula
takes such a mark and its digits for a reference, and leaves every other operand that is a numeral as it is.
-/
namespace FormulaGrid

namespace Numeral
open Digits Reference Formula RefShift

variable {t digits whole fraction signs mantissa exponent : Text} {negative : Bool} {e : Int}
  {numeral : Numeral}

/-- The capital letters of a numeral without signs: those of a word, none, or the mark of an exponent. -/
inductive Capitals : Text → Prop where
  | word : Capitals infinityWord
  | none {t : Text} (h : ∀ c ∈ t, isLetter c = false) : Capitals t
  | mark {mantissa digits : Text} (h : ∀ c ∈ mantissa, isLetter c = false)
    (hdigits : Spells ['E'] digits) : Capitals (mantissa ++ 'E' :: digits)

theorem not_isLetter_of_digits (h : ∀ c ∈ digits, isDigit c) : ∀ c ∈ digits, isLetter c = false :=
  fun c hc => not_isLetter_of_isDigit (h c hc)

theorem not_isLetter_of_pointed (hwhole : ∀ c ∈ whole, isDigit c)
    (hfraction : ∀ c ∈ fraction, isDigit c) : ∀ c ∈ whole ++ '.' :: fraction, isLetter c = false := by
  have hpoint : isLetter '.' = false := by decide
  exact List.forall_mem_append.mpr ⟨not_isLetter_of_digits hwhole,
    List.forall_mem_cons.mpr ⟨hpoint, not_isLetter_of_digits hfraction⟩⟩

theorem IsMantissa.not_isLetter (h : IsMantissa mantissa whole fraction) :
    ∀ c ∈ mantissa, isLetter c = false := by
  cases h with
  | whole h => exact not_isLetter_of_digits h.digits
  | point hwhole hfraction => exact not_isLetter_of_pointed hwhole.digits hfraction
  | leading h => exact not_isLetter_of_pointed (List.forall_mem_nil _) h.digits

theorem IsSign.eq_nil_of_unsigned (h : IsSign signs negative)
    (hsigns : ∀ c ∈ signs, isAdditive c = false) : signs = [] := by
  cases h with
  | none => rfl
  | plus => exact absurd (hsigns '+' (by simp)) (by decide)
  | minus => exact absurd (hsigns '-' (by simp)) (by decide)

theorem IsDigits.spells_mark (h : IsDigits digits) : Spells ['E'] digits where
  label_ne_nil := List.cons_ne_nil 'E' []
  letters c hc := by
    rw [List.mem_singleton.mp hc]
    decide
  digits_ne_nil := h.ne_nil
  digits := h.digits

/-- An exponent without a sign adds a capital letter at most by its mark. -/
theorem IsExponent.capitals_append (h : IsExponent exponent e)
    (hmantissa : ∀ c ∈ mantissa, isLetter c = false) (hsigns : ∀ c ∈ exponent, isAdditive c = false) :
    Capitals (mantissa ++ exponent) := by
  cases h with
  | none => exact .none (by simpa using hmantissa)
  | @marked mark signs digits negative hmark hsign hdigits =>
    obtain rfl := hsign.eq_nil_of_unsigned fun c hc => hsigns c (by simp [hc])
    rw [List.nil_append]
    rcases hmark with rfl | rfl
    · have hplain : isLetter 'e' = false := by decide
      exact .none (List.forall_mem_append.mpr ⟨hmantissa,
        List.forall_mem_cons.mpr ⟨hplain, not_isLetter_of_digits hdigits.digits⟩⟩)
    · exact .mark hmantissa hdigits.spells_mark

theorem IsNumeral.capitals {size : WithTop ℚ} (h : IsNumeral t negative size)
    (hsigns : ∀ c ∈ t, isAdditive c = false) : Capitals t := by
  cases h with
  | infinity hsign =>
    obtain rfl := hsign.eq_nil_of_unsigned fun c hc => hsigns c (by simp [hc])
    exact .word
  | decimal hsign hmantissa hexponent =>
    obtain rfl := hsign.eq_nil_of_unsigned fun c hc => hsigns c (by simp [hc])
    exact hexponent.capitals_append hmantissa.not_isLetter fun c hc => hsigns c (by simp [hc])

theorem capitals_of_scan (hsigns : ∀ c ∈ t, isAdditive c = false) (h : scan t = some (numeral, [])) :
    Capitals t := by
  obtain ⟨w, hw, rfl⟩ := isNumeral_of_scan h
  rw [List.append_nil] at hsigns ⊢
  exact hw.capitals hsigns

end Numeral

namespace Formula

variable {isOperator : Char → Bool} {t body token : Text} {c : Char} {formula : Formula}

theorem mem_of_mem_tokens (h : token ∈ (ofBody body).tokens) (hc : c ∈ token) : c ∈ body := by
  rcases ofBody_cases body with hbody | ⟨-, hbody | hbody⟩
  · rw [hbody] at h
    exact mem_of_mem_tokenize h hc
  · rw [hbody] at h
    exact mem_of_mem_tokenize h hc
  · rw [hbody, tokens, List.mem_singleton] at h
    exact Text.mem_of_mem_trim (h ▸ hc)

theorem ofBody_sign (hc : isAdditive c) : ofBody [c] = .value [c] := by
  rcases eq_of_isAdditive hc with rfl | rfl <;> decide

/-- A sign is a token of its own. -/
theorem sign_of_mem_tokens (h : parse t = some formula) (htoken : token ∈ formula.tokens) :
    (∃ c, isAdditive c ∧ token = [c]) ∨ ∀ c ∈ token, isAdditive c = false := by
  unfold parse at h
  split at h
  · rename_i body
    obtain rfl := Option.some.inj h
    rcases ofBody_cases (Text.trim body) with hbody | ⟨hwhole, -⟩
    · rw [hbody] at htoken
      exact mem_tokenize htoken
    · have hmem : Text.trim body ∈ tokenize isAdditive (Text.trim body) := by rw [hwhole]; simp
      rcases mem_tokenize hmem with ⟨c, hc, hsign⟩ | hplain
      · rw [hsign, ofBody_sign hc] at htoken
        exact Or.inl ⟨c, hc, List.mem_singleton.mp htoken⟩
      · exact Or.inr fun c hc => hplain c (mem_of_mem_tokens htoken hc)
  · cases h

/-- An operand that is a numeral and nothing else. -/
def IsLiteral (token : Text) : Prop := ∃ numeral, Numeral.scan (Text.trim token) = some (numeral, [])

theorem unsigned_of_isLiteral (h : parse t = some formula) (htoken : token ∈ formula.tokens)
    (hliteral : IsLiteral token) : ∀ c ∈ token, isAdditive c = false := by
  refine (sign_of_mem_tokens h htoken).resolve_left ?_
  rintro ⟨c, hc, rfl⟩
  obtain ⟨numeral, hscan⟩ := hliteral
  have hnone : Numeral.scan (Text.trim [c]) = none := by
    rcases eq_of_isAdditive hc with rfl | rfl <;> decide
  rw [hnone] at hscan
  cases hscan

end Formula

namespace RefShift
open Digits Reference Numeral

variable {rows cols : Int} {token : Text}

/-- What shifting makes of a literal. It is kept, unless a capital letter marks its exponent: then the mark
and the digits after it are moved like a reference. -/
structure MovesLiteral (rows cols : Int) (token token' : Text) : Prop where
  kept : 'E' ∉ token → token' = token
  raised : 'E' ∈ token → ∃ mantissa digits, Spells ['E'] digits ∧
    Text.trim token = mantissa ++ 'E' :: digits ∧
    Text.trim token' = mantissa ++ movedReference rows cols ['E'] digits

theorem movesLiteral_of_capitals (hm : AllMovable rows cols (matched token))
    (h : Capitals (Text.trim token)) : MovesLiteral rows cols token (moved rows cols token) := by
  have hkept (hnone : matched (Text.trim token) = []) : moved rows cols token = token :=
    moved_of_matched_nil ((matched_trim token).symm.trans hnone)
  have hmark : 'E' ∈ token ↔ 'E' ∈ Text.trim token :=
    ⟨fun hmem => Text.mem_trim hmem (by decide), Text.mem_of_mem_trim⟩
  have hmoved := trim_moved hm
  generalize htrim : Text.trim token = t at h hkept hmark hmoved
  cases h with
  | word =>
    have hword : matched infinityWord = [] ∧ 'E' ∉ infinityWord := by decide
    exact ⟨fun _ => hkept hword.1, fun hmem => absurd (hmark.mp hmem) hword.2⟩
  | none h =>
    refine ⟨fun _ => hkept (matched_of_not_letter h), fun hmem => ?_⟩
    exact absurd (h 'E' (hmark.mp hmem)) (by decide)
  | @mark mantissa digits h hdigits =>
    refine ⟨fun hnot => absurd (hmark.mpr (by simp)) hnot, fun _ => ?_⟩
    exact ⟨mantissa, digits, hdigits, htrim, hmoved.trans (moved_append_reference h hdigits)⟩

end RefShift

namespace Formula
open Digits Reference RefShift

variable {t : Text} {formula : Formula} {rows cols : Int}

/-- Shifting a formula leaves its literals alone, but for a capital mark of an exponent. As long as no matched
reference leaves the grid, the shift fails if one of them has too long a row. Otherwise the shifted text is
a formula with as many tokens, and what was a literal is kept in its place or has its exponent moved. -/
theorem shift_moves_literals (hp : parse t = some formula)
    (hgrid : ∀ label digits, (label, digits) ∈ matched t →
      0 ≤ digitsValue digits + rows ∧ 0 ≤ columnIndex label + cols) :
    ((∃ reference ∈ matched t, ¬Fits rows reference.2) →
      RefShift.shift t rows cols = .error .numeralTooLong) ∧
    ((∀ reference ∈ matched t, Fits rows reference.2) →
      ∃ shifted, RefShift.shift t rows cols = .ok shifted ∧
        parse shifted = some (formula.map (moved rows cols)) ∧
        ∀ token ∈ formula.tokens, IsLiteral token →
          MovesLiteral rows cols token (moved rows cols token)) := by
  refine ⟨shift_error_iff.mpr, fun hfits => ?_⟩
  have hm : AllMovable rows cols (matched t) := fun label digits hmem =>
    ⟨hfits (label, digits) hmem, (hgrid label digits hmem).1, (hgrid label digits hmem).2⟩
  refine ⟨moved rows cols t, shift_eq_moved hm, parse_moved hp hm, ?_⟩
  intro token htoken hliteral
  have hsigns := unsigned_of_isLiteral hp htoken hliteral
  obtain ⟨numeral, hscan⟩ := hliteral
  apply movesLiteral_of_capitals
  · exact fun label digits hmem => hm label digits (matched_of_mem_tokens hp htoken hmem)
  · exact Numeral.capitals_of_scan (fun c hc => hsigns c (Text.mem_of_mem_trim hc)) hscan

theorem shift_moves_literals_down :
    let tokens := ["1e5".toList, ['+'], "2E1".toList, ['-'], "A1".toList]
    let movedTokens := ["1e5".toList, ['+'], "2E2".toList, ['-'], "A2".toList]
    parse "=1e5+2E1-A1".toList = some (.expression tokens) ∧
      (∀ label digits, (label, digits) ∈ matched "=1e5+2E1-A1".toList →
        0 ≤ (digitsValue digits : Int) + 1 ∧ 0 ≤ columnIndex label + 0) ∧
      (∀ reference ∈ matched "=1e5+2E1-A1".toList, Fits 1 reference.2) ∧
      IsLiteral "1e5".toList ∧ IsLiteral "2E1".toList ∧
      ∃ shifted, RefShift.shift "=1e5+2E1-A1".toList 1 0 = .ok shifted ∧
        parse shifted = some (.expression movedTokens) ∧
        MovesLiteral 1 0 "1e5".toList "1e5".toList ∧ MovesLiteral 1 0 "2E1".toList "2E2".toList := by
  intro tokens movedTokens
  have hp : parse "=1e5+2E1-A1".toList = some (.expression tokens) := by decide
  have hmatched : matched "=1e5+2E1-A1".toList = [(['E'], ['1']), (['A'], ['1'])] := by decide
  have hgrid : ∀ label digits, (label, digits) ∈ matched "=1e5+2E1-A1".toList →
      0 ≤ (digitsValue digits : Int) + 1 ∧ 0 ≤ columnIndex label + 0 := by
    intro label digits hmem
    simp only [hmatched, List.mem_cons, Prod.mk.injEq, List.not_mem_nil, or_false] at hmem
    obtain ⟨rfl, rfl⟩ | ⟨rfl, rfl⟩ := hmem <;> decide
  have hfits : ∀ reference ∈ matched "=1e5+2E1-A1".toList, Fits 1 reference.2 := by
    rw [hmatched, List.forall_mem_cons, List.forall_mem_singleton]
    exact ⟨⟨by decide, by decide⟩, ⟨by decide, by decide⟩⟩
  have hlower : IsLiteral "1e5".toList := ⟨.decimal false 1 5, by decide⟩
  have hcapital : IsLiteral "2E1".toList := ⟨.decimal false 2 1, by decide⟩
  have hmoved : tokens.map (moved 1 0) = movedTokens := by decide +kernel
  have hkept : moved 1 0 "1e5".toList = "1e5".toList := by decide +kernel
  have hraised : moved 1 0 "2E1".toList = "2E2".toList := by decide +kernel
  obtain ⟨shifted, hshift, hparse, hliterals⟩ := (shift_moves_literals hp hgrid).2 hfits
  refine ⟨hp, hgrid, hfits, hlower, hcapital, shifted, hshift, by rw [hparse, map, hmoved], ?_, ?_⟩
  · simpa only [hkept] using hliterals "1e5".toList (by simp [Formula.tokens, tokens]) hlower
  · simpa only [hraised] using hliterals "2E1".toList (by simp [Formula.tokens, tokens]) hcapital

/-- One row down, a literal whose exponent has a capital mark is multiplied by ten. -/
theorem shifted_exponent :
    parse "=1E5+2".toList = some (.expression ["1E5".toList, ['+'], ['2']]) ∧
      IsLiteral "1E5".toList ∧ matched "=1E5+2".toList = [(['E'], ['5'])] ∧
      RefShift.shift "=1E5+2".toList 1 0 = .ok "=1E6+2".toList ∧
      parse "=1E6+2".toList = some (.expression ["1E6".toList, ['+'], ['2']]) ∧
      readNumber "1E5".toList ≠ readNumber "1E6".toList :=
  ⟨by decide, ⟨.decimal false 1 5, by decide⟩, by decide, by decide +kernel, by decide,
    by decide +kernel⟩

end Formula

end FormulaGrid
