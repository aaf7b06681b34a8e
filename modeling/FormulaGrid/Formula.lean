import FormulaGrid.Text

/-!
# Formulas

A text that begins with an equals sign is a formula. Its trimmed body is split at every plus and minus
sign; only a body without any is split at the stars and slashes. Operators are kept as tokens, empty
pieces are not, and a body that stays whole is the formula of a single value.
-/
namespace FormulaGrid

inductive Formula where
  | value (operand : Text)
  | expression (tokens : List Text)
  deriving DecidableEq, Repr

namespace Formula

def isAdditive (c : Char) : Bool := c == '+' || c == '-'

def isMultiplicative (c : Char) : Bool := c == '*' || c == '/'

/-- Puts a character in front of the operand that comes first, or makes it an operand of its own. -/
def attach (isOperator : Char → Bool) (c : Char) : List Text → List Text
  | [] => [[c]]
  | token :: tokens =>
    if token.head?.any isOperator then [c] :: token :: tokens else (c :: token) :: tokens

/-- Splits a text at its operator characters, which become tokens of one character. -/
def tokenize (isOperator : Char → Bool) : Text → List Text
  | [] => []
  | c :: t =>
    if isOperator c then [c] :: tokenize isOperator t
    else attach isOperator c (tokenize isOperator t)

def ofBody (body : Text) : Formula :=
  match tokenize isAdditive body with
  | [piece] =>
    match tokenize isMultiplicative piece with
    | [operand] => .value (Text.trim operand)
    | tokens => .expression tokens
  | tokens => .expression tokens

def parse : Text → Option Formula
  | '=' :: t => some (ofBody (Text.trim t))
  | _ => none

end Formula

def Text.isFormula : Text → Bool
  | '=' :: _ => true
  | _ => false

namespace Formula

theorem tokenize_flatten (isOperator : Char → Bool) (t : Text) :
    (tokenize isOperator t).flatten = t := by
  induction t with
  | nil => rfl
  | cons c t ih =>
    simp only [tokenize]
    split
    · simp [ih]
    · cases h : tokenize isOperator t with
      | nil =>
        rw [h] at ih
        subst ih
        rfl
      | cons token tokens =>
        rw [h] at ih
        simp only [attach]
        split <;> simp [← ih]

theorem parse_isSome (t : Text) : (parse t).isSome = t.isFormula := by
  unfold parse Text.isFormula
  split <;> simp

end Formula

end FormulaGrid
