import FormulaGrid.Proofs.DisplayedNumbers
import FormulaGrid.Proofs.OverlongOperands

/-!
# Precedence

The tokens of an expression are sums of products. Its evaluation, which writes every product back among
the tokens as a text, comes to the number that the products and sums have when nothing is written down in
between, and fails by zero exactly when a divisor is zero.
-/
namespace FormulaGrid

namespace Formula
open Binary64

inductive Scaling where
  | times
  | divided
  deriving DecidableEq, Repr

inductive Sign where
  | plus
  | minus
  deriving DecidableEq, Repr

def Scaling.token : Scaling → Text
  | .times => ['*']
  | .divided => ['/']

def Scaling.apply : Scaling → Binary64 → Binary64 → Binary64
  | .times => mul
  | .divided => div

def Sign.token : Sign → Text
  | .plus => ['+']
  | .minus => ['-']

def Sign.apply : Sign → Binary64 → Binary64 → Binary64
  | .plus => add
  | .minus => sub

/-- An operand with all the products and quotients that it goes through, from left to right. -/
structure Term where
  first : Text
  factors : List (Scaling × Text)

/-- Terms that are added up from left to right. -/
structure Expression where
  first : Term
  others : List (Sign × Term)

namespace Term

def factorTokens (factors : List (Scaling × Text)) : List Text :=
  factors.flatMap fun factor => [factor.1.token, factor.2]

def tokens (t : Term) : List Text := t.first :: factorTokens t.factors

def operands (t : Term) : List Text := t.first :: t.factors.map Prod.snd

def divisors (t : Term) : List Text := (t.factors.filter (·.1 = .divided)).map Prod.snd

/-- The number of a term, of whose operands the numbers are given. -/
def value (number : Text → Binary64) (t : Term) : Binary64 :=
  t.factors.foldl (fun x factor => factor.1.apply x (number factor.2)) (number t.first)

end Term

namespace Expression

def termTokens (terms : List (Sign × Term)) : List Text :=
  terms.flatMap fun term => term.1.token :: term.2.tokens

def tokens (e : Expression) : List Text := e.first.tokens ++ termTokens e.others

def operands (e : Expression) : List Text :=
  e.first.operands ++ e.others.flatMap fun term => term.2.operands

def divisors (e : Expression) : List Text :=
  e.first.divisors ++ e.others.flatMap fun term => term.2.divisors

def value (number : Text → Binary64) (e : Expression) : Binary64 :=
  e.others.foldl (fun x term => term.1.apply x (term.2.value number)) (e.first.value number)

end Expression

def operators : List Text := [['+'], ['-'], ['*'], ['/']]

theorem mem_operators {operator : Text} : operator ∈ operators ↔
    (∃ sign : Sign, operator = sign.token) ∨ ∃ scaling : Scaling, operator = scaling.token := by
  simp only [operators, List.mem_cons, List.not_mem_nil, or_false]
  constructor
  · rintro (rfl | rfl | rfl | rfl)
    · exact Or.inl ⟨.plus, rfl⟩
    · exact Or.inl ⟨.minus, rfl⟩
    · exact Or.inr ⟨.times, rfl⟩
    · exact Or.inr ⟨.divided, rfl⟩
  · rintro (⟨sign, rfl⟩ | ⟨scaling, rfl⟩)
    · cases sign <;> simp [Sign.token]
    · cases scaling <;> simp [Scaling.token]

/-- Any tokens with operators at the odd places, and an operand at the end, are those of an expression. -/
theorem exists_expression {tokens : List Text} (hlength : tokens.length % 2 = 1)
    (hoperators : ∀ operator ∈ evenTokens (tokens.drop 1), operator ∈ operators) :
    ∃ e : Expression, e.tokens = tokens := by
  induction tokens using List.twoStepInduction with
  | nil => cases hlength
  | singleton token => exact ⟨⟨⟨token, []⟩, []⟩, rfl⟩
  | cons_cons token operator tokens ih _ =>
    rw [List.drop_succ_cons, List.drop_zero, evenTokens_cons, List.forall_mem_cons] at hoperators
    obtain ⟨⟨⟨first, factors⟩, others⟩, rfl⟩ :=
      ih (by simpa [Nat.add_assoc] using hlength) hoperators.2
    rcases mem_operators.mp hoperators.1 with ⟨sign, rfl⟩ | ⟨scaling, rfl⟩
    · exact ⟨⟨⟨token, []⟩, (sign, ⟨first, factors⟩) :: others⟩, rfl⟩
    · exact ⟨⟨⟨token, (scaling, first) :: factors⟩, others⟩, rfl⟩

theorem evenTokens_term (first : Text) (factors : List (Scaling × Text)) (rest : List Text) :
    evenTokens (first :: (Term.factorTokens factors ++ rest)) =
      (first :: factors.map Prod.snd) ++ evenTokens (rest.drop 1) := by
  induction factors generalizing first with
  | nil => exact evenTokens_cons first rest
  | cons factor factors ih => exact congrArg (first :: ·) (ih factor.2)

theorem evenTokens_termTokens (terms : List (Sign × Term)) :
    evenTokens ((Expression.termTokens terms).drop 1) = terms.flatMap fun term => term.2.operands := by
  induction terms with
  | nil => rfl
  | cons term terms ih =>
    rw [List.flatMap_cons, ← ih]
    exact evenTokens_term term.2.first term.2.factors (Expression.termTokens terms)

theorem evenTokens_expression (e : Expression) : evenTokens e.tokens = e.operands := by
  rw [Expression.operands, ← evenTokens_termTokens]
  exact evenTokens_term e.first.first e.first.factors (Expression.termTokens e.others)

/-- The text that arithmetic reads for an operand. -/
def resolved (lookup : Lookup) (token : Text) : Text :=
  match cell? token with
  | some key => Evaluation.numericText (lookup key)
  | none => Text.trim token

/-- The number that arithmetic reads for an operand. -/
def number (lookup : Lookup) (token : Text) : Binary64 := readNumber (resolved lookup token)

/-- A token that can be read in the place of a number. -/
structure Stands (lookup : Lookup) (x : Binary64) (token : Text) : Prop where
  akin : Akin (number lookup token) x
  short : ¬Overlong token

theorem stands_number {lookup : Lookup} {token : Text} (h : ¬Overlong token) :
    Stands lookup (number lookup token) token := ⟨rfl, h⟩

theorem number_display (lookup : Lookup) (x : Binary64) :
    number lookup (NumberDisplay.display x) = x.dropZeroSign := by
  rw [number, resolved, cell?_display, NumberDisplay.trim_display, readNumber_display]

/-- What is written down for a number stands for it, and for any that is akin. -/
theorem stands_display {lookup : Lookup} {x y : Binary64} (h : Akin x y) :
    Stands lookup y (NumberDisplay.display x) := by
  refine ⟨?_, not_overlong_display x⟩
  rw [number_display]
  exact (akin_dropZeroSign x).trans h

end Formula

namespace Evaluation
open Formula Binary64

variable {fails : Fault → Prop} {lookup : Lookup} {token left : Text} {x : Binary64}

theorem exists_resolve (h : ¬Overlong token) (cells : List CellKey) :
    ∃ after, resolve lookup token cells = .ok (resolved lookup token, after) := by
  cases href : Reference.isReference (Text.trim token) with
  | false =>
    have hnone : cell? token = none := by simp [cell?, href]
    exact ⟨cells, by rw [resolve_literal cells href, resolved, hnone]⟩
  | true =>
    obtain ⟨⟨label, digits⟩, hsplit⟩ := Option.isSome_iff_exists.mp href
    have hshort : digits.length ≤ IntegerText.digitLimit := by
      by_contra hlong
      exact h ⟨label, digits, hsplit, by omega⟩
    have hkey := CellKey.ofReference_short hsplit hshort
    exact ⟨_, by rw [resolve_reference cells href hkey, resolved, cell?_eq_some href hkey]⟩

theorem resolve_of_overlong (h : Overlong token) (cells : List CellKey) :
    resolve lookup token cells = .error .numeralTooLong := by
  obtain ⟨label, digits, hsplit, hlong⟩ := h
  have href : Reference.isReference (Text.trim token) := by simp [Reference.isReference, hsplit]
  exact resolve_overlong cells href (CellKey.ofReference_overlong hsplit hlong)

theorem ends_resolve (hlong : Overlong token → fails .numeralTooLong) :
    Ends fails (· = resolved lookup token) (resolve lookup token) := by
  intro cells
  by_cases h : Overlong token
  · rw [resolve_of_overlong h]
    exact hlong h
  · obtain ⟨after, hafter⟩ := exists_resolve h cells
    rw [hafter]

theorem ends_operand (hlong : Overlong token → fails .numeralTooLong) :
    Ends fails (· = number lookup token) (operand lookup token) := by
  have hbind : operand lookup token =
      resolve lookup token >>= fun text => pure (readNumber text) := rfl
  rw [hbind]
  apply ends_bind (ends_resolve hlong)
  rintro _ rfl
  exact ends_pure rfl

theorem Ends.of_stands (h : Stands lookup x token) :
    Ends fails (Akin · x) (operand lookup token) := by
  apply (ends_operand (absurd · h.short)).mono
  rintro _ rfl
  exact h.akin

/-- The number that is left after all the factors of a term. -/
def scaled (lookup : Lookup) (x : Binary64) (factors : List (Scaling × Text)) : Binary64 :=
  factors.foldl (fun x factor => factor.1.apply x (number lookup factor.2)) x

/-- No divisor among the factors is zero. -/
def Divides (lookup : Lookup) (factors : List (Scaling × Text)) : Prop :=
  ∀ factor ∈ factors, factor.1 = .divided → (number lookup factor.2).isZero = false

/-- The first pass goes through the factors of a term with a text that stands for its number so far. -/
theorem ends_factors {factors : List (Scaling × Text)} {rest : List Text}
    {property : List Text → Prop} (hleft : Stands lookup x left)
    (hshort : ∀ factor ∈ factors, ¬Overlong factor.2)
    (hzero : ¬Divides lookup factors → fails (.formula .divisionByZero))
    (hrest : Divides lookup factors → ∀ product, Stands lookup (scaled lookup x factors) product →
      Ends fails property (foldProducts lookup product rest)) :
    Ends fails property (foldProducts lookup left (Term.factorTokens factors ++ rest)) := by
  induction factors generalizing left x with
  | nil => exact hrest (by simp [Divides]) left hleft
  | cons factor factors ih =>
    obtain ⟨scaling, right⟩ := factor
    obtain ⟨hright, hothers⟩ := List.forall_mem_cons.mp hshort
    have hdivides : Divides lookup ((scaling, right) :: factors) ↔
        (scaling = .divided → (number lookup right).isZero = false) ∧ Divides lookup factors :=
      List.forall_mem_cons
    rw [hdivides] at hzero hrest
    cases scaling with
    | times =>
      have hcons : Term.factorTokens ((.times, right) :: factors) ++ rest =
          ['*'] :: right :: (Term.factorTokens factors ++ rest) := rfl
      rw [hcons, foldProducts_times_cons]
      apply ends_bind (Ends.of_stands hleft)
      intro y hy
      apply ends_bind (ends_operand (absurd · hright))
      rintro _ rfl
      apply ih (stands_display (hy.mul_right _)) hothers
      · exact fun h => hzero fun hall => h hall.2
      · exact fun h => hrest ⟨nofun, h⟩
    | divided =>
      have hcons : Term.factorTokens ((.divided, right) :: factors) ++ rest =
          ['/'] :: right :: (Term.factorTokens factors ++ rest) := rfl
      rw [hcons, foldProducts_over_cons]
      apply ends_bind (Ends.of_stands hleft)
      intro y hy
      apply ends_bind (ends_operand (absurd · hright))
      rintro _ rfl
      apply ends_bind (ends_divide fun h => hzero fun hall => by simp [hall.1 rfl] at h)
      rintro _ ⟨rfl, hnonzero⟩
      apply ih (stands_display (hy.div_right _)) hothers
      · exact fun h => hzero fun hall => h hall.2
      · exact fun h => hrest ⟨fun _ => hnonzero, h⟩

/-- Tokens that are left after the first pass: every term is a token that stands for it. -/
inductive Folded (lookup : Lookup) : List (Sign × Term) → List Text → Prop where
  | nil : Folded lookup [] []
  | cons {sign : Sign} {term : Term} {terms : List (Sign × Term)} {token : Text} {tokens : List Text}
    (h : Stands lookup (term.value (number lookup)) token) (hs : Folded lookup terms tokens) :
    Folded lookup ((sign, term) :: terms) (sign.token :: token :: tokens)

/-- The first pass leaves one token for each term. -/
theorem ends_foldProducts {term : Term} {others : List (Sign × Term)}
    (hshort : ∀ token ∈ term.operands ++ others.flatMap (·.2.operands), ¬Overlong token)
    (hzero : ¬(Divides lookup term.factors ∧ ∀ other ∈ others, Divides lookup other.2.factors) →
      fails (.formula .divisionByZero)) :
    Ends fails
      (fun tokens => (Divides lookup term.factors ∧ ∀ other ∈ others, Divides lookup other.2.factors) ∧
        ∃ token rest, tokens = token :: rest ∧ Stands lookup (term.value (number lookup)) token ∧
          Folded lookup others rest)
      (foldProducts lookup term.first
        (Term.factorTokens term.factors ++ Expression.termTokens others)) := by
  induction others generalizing term with
  | nil =>
    simp only [Term.operands, List.flatMap_nil, List.append_nil, List.forall_mem_cons,
      List.forall_mem_map] at hshort
    apply ends_factors (stands_number hshort.1) hshort.2
    · exact fun h => hzero fun hall => h hall.1
    · intro hdivides product hproduct
      exact ends_pure ⟨⟨hdivides, by simp⟩, product, [], rfl, hproduct, .nil⟩
  | cons other others ih =>
    obtain ⟨sign, next⟩ := other
    have hnext : ∀ token ∈ next.operands ++ others.flatMap (·.2.operands), ¬Overlong token := by
      intro token htoken
      exact hshort token (List.mem_append_right _ htoken)
    simp only [List.forall_mem_append, Term.operands, List.forall_mem_cons,
      List.forall_mem_map] at hshort
    simp only [List.forall_mem_cons] at hzero ⊢
    apply ends_factors (stands_number hshort.1.1) hshort.1.2
    · exact fun h => hzero fun hall => h hall.1
    · intro hdivides product hproduct
      have hplain : sign.token ≠ ['*'] ∧ sign.token ≠ ['/'] := by cases sign <;> decide
      have hcons : Expression.termTokens ((sign, next) :: others) = sign.token :: next.first ::
          (Term.factorTokens next.factors ++ Expression.termTokens others) := rfl
      rw [hcons, foldProducts.eq_5 _ _ _ _ _ hplain.1 hplain.2]
      apply ends_bind (ih hnext fun h => hzero fun hall => h hall.2)
      rintro _ ⟨hall, token, rest, rfl, htoken, hrest⟩
      exact ends_pure ⟨⟨hdivides, hall⟩, product, _, rfl, hproduct, .cons htoken hrest⟩

/-- The second pass adds the terms up. -/
theorem ends_foldTerms {terms : List (Sign × Term)} {tokens : List Text} {total : Binary64}
    (h : Folded lookup terms tokens) (htotal : Akin total x) :
    Ends fails (Akin · (terms.foldl (fun x term => term.1.apply x (term.2.value (number lookup))) x))
      (foldTerms lookup total tokens) := by
  induction h generalizing total x with
  | nil => exact ends_pure htotal
  | @cons sign term _ _ _ htoken _ ih =>
    rw [foldTerms]
    apply ends_bind (Ends.of_stands htoken)
    intro y hy
    apply ih
    cases sign with
    | plus => exact htotal.add hy
    | minus => exact htotal.sub hy

/-- An expression evaluates to its number, unless it divides by zero. -/
theorem ends_reading {e : Expression} (hshort : ∀ token ∈ e.operands, ¬Overlong token)
    (hzero : (∃ divisor ∈ e.divisors, (number lookup divisor).isZero) →
      fails (.formula .divisionByZero)) :
    Ends fails (fun text => (∀ divisor ∈ e.divisors, (number lookup divisor).isZero = false) ∧
        text = NumberDisplay.display (e.value (number lookup)))
      (reading lookup (.expression e.tokens)) := by
  have hdivides : (Divides lookup e.first.factors ∧
      ∀ other ∈ e.others, Divides lookup other.2.factors) ↔
      ∀ divisor ∈ e.divisors, (number lookup divisor).isZero = false := by
    simp only [Expression.divisors, Term.divisors, List.forall_mem_append, List.forall_mem_flatMap,
      List.forall_mem_map, List.mem_filter, decide_eq_true_eq, and_imp, Divides]
  have hfails : ¬(Divides lookup e.first.factors ∧
      ∀ other ∈ e.others, Divides lookup other.2.factors) → fails (.formula .divisionByZero) := by
    intro h
    rw [hdivides] at h
    apply hzero
    simpa using h
  apply ends_bind (ends_foldProducts hshort hfails)
  rintro _ ⟨hall, token, rest, rfl, htoken, hrest⟩
  have hsum : Ends fails (Akin · (e.value (number lookup))) (sum lookup (token :: rest)) := by
    apply ends_bind (Ends.of_stands htoken)
    intro y hy
    exact ends_foldTerms hrest hy
  apply ends_bind hsum
  intro total htotal
  exact ends_pure ⟨hdivides.mp hall, htotal.display_eq⟩

end Evaluation

namespace Formula
open Evaluation

/-- The evaluator computes with the usual precedence. A list of tokens with arbitrary operands and with
operators in between is that of an expression. It fails by zero if and only if what comes directly after
a slash reads as zero, and otherwise evaluates to the number of the expression, whose products and sums
are not written down on the way. -/
theorem evaluate_by_precedence (lookup : Lookup) {tokens : List Text}
    (hlength : tokens.length % 2 = 1)
    (hoperators : ∀ operator ∈ evenTokens (tokens.drop 1), operator ∈ operators)
    (hshort : ∀ token ∈ evenTokens tokens, ¬Overlong token) :
    (∃ e : Expression, e.tokens = tokens) ∧ ∀ e : Expression, e.tokens = tokens →
      ((Formula.expression tokens).evaluate lookup = .error (.formula .divisionByZero) ↔
        ∃ divisor ∈ e.divisors, (number lookup divisor).isZero) ∧
      ((∀ divisor ∈ e.divisors, (number lookup divisor).isZero = false) →
        ∃ cells, (Formula.expression tokens).evaluate lookup =
          .ok ⟨NumberDisplay.display (e.value (number lookup)), cells⟩) := by
  refine ⟨exists_expression hlength hoperators, ?_⟩
  rintro e rfl
  rw [evenTokens_expression] at hshort
  have hends : Ends (fun fault => fault = .formula .divisionByZero ∧
        ∃ divisor ∈ e.divisors, (number lookup divisor).isZero)
      (fun text => (∀ divisor ∈ e.divisors, (number lookup divisor).isZero = false) ∧
        text = NumberDisplay.display (e.value (number lookup)))
      (reading lookup (.expression e.tokens)) := ends_reading hshort fun h => ⟨rfl, h⟩
  rcases evaluate_of_ends hends with
    ⟨⟨text, cells⟩, hevaluate, hnonzero, htext⟩ | ⟨fault, hevaluate, rfl, divisor, hmem, hzero⟩
  · obtain rfl : text = NumberDisplay.display (e.value (number lookup)) := htext
    refine ⟨?_, fun _ => ⟨cells, hevaluate⟩⟩
    simpa [hevaluate] using hnonzero
  · refine ⟨by simpa [hevaluate] using ⟨divisor, hmem, hzero⟩, ?_⟩
    intro hnonzero
    rw [hnonzero divisor hmem] at hzero
    cases hzero

/-- The product of nothing and a negative number is a negative zero, which is written down without its
sign. -/
theorem evaluate_by_precedence_zero :
    let tokens : List Text := [['A', '1'], ['*'], ['-', '5'], ['+'], ['1'], ['/'], ['4']]
    let e : Expression :=
      ⟨⟨['A', '1'], [(.times, ['-', '5'])]⟩, [(.plus, ⟨['1'], [(.divided, ['4'])]⟩)]⟩
    tokens.length % 2 = 1 ∧ (∀ operator ∈ evenTokens (tokens.drop 1), operator ∈ operators) ∧
      (∀ token ∈ evenTokens tokens, ¬Overlong token) ∧ e.tokens = tokens ∧
      ∃ cells, (Formula.expression tokens).evaluate (fun _ => ['0']) =
        .ok ⟨['0', '.', '2', '5'], cells⟩ := by
  intro tokens e
  have hlength : tokens.length % 2 = 1 := by decide
  have hoperators : ∀ operator ∈ evenTokens (tokens.drop 1), operator ∈ operators := by decide
  have hsplit : Reference.split? (Text.trim ['A', '1']) = some (['A'], ['1']) := by decide
  have hreference : ¬Overlong ['A', '1'] := not_overlong_of_short hsplit (by decide)
  have hliteral : ∀ token ∈ evenTokens (tokens.drop 2), ¬Overlong token := by
    have hplain : ∀ token ∈ evenTokens (tokens.drop 2),
        Reference.isReference (Text.trim token) = false := by decide
    exact fun token htoken => not_overlong_of_not_isReference (hplain token htoken)
  have hshort : ∀ token ∈ evenTokens tokens, ¬Overlong token :=
    List.forall_mem_cons.mpr ⟨hreference, hliteral⟩
  have hnonzero : ∀ divisor ∈ e.divisors, (number (fun _ => ['0']) divisor).isZero = false := by
    decide +kernel
  have hvalue : NumberDisplay.display (e.value (number fun _ => ['0'])) = ['0', '.', '2', '5'] := by
    decide +kernel
  obtain ⟨-, hall⟩ := evaluate_by_precedence (fun _ => ['0']) hlength hoperators hshort
  obtain ⟨cells, hcells⟩ := (hall e rfl).2 hnonzero
  exact ⟨hlength, hoperators, hshort, rfl, cells, by rw [hcells, hvalue]⟩

end Formula

end FormulaGrid
