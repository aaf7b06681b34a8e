import FormulaGrid.Formula
import FormulaGrid.NumberDisplay
import FormulaGrid.Numeral
import FormulaGrid.Reference

/-!
# Evaluation

Operands are texts, at the even places of a token list; a reference stands for the raw text of its
cell when that is a finite number, and for 0 otherwise. One pass folds every product and quotient into
the text of its result, a second one adds up what is left. The cells read are collected in the order
of their first reading.
-/
namespace FormulaGrid

/-- The raw text of each cell, empty where there is none. -/
abbrev Lookup := CellKey → Text

/-- A computation that notes the cells it reads. -/
abbrev Reading (α : Type) := StateT (List CellKey) (Except Fault) α

namespace Evaluation

def note (key : CellKey) (cells : List CellKey) : List CellKey :=
  if key ∈ cells then cells else cells ++ [key]

def failure {α : Type} (e : FormulaError) : Reading α := throw (.formula e)

/-- The text that arithmetic reads for a referenced cell. -/
def numericText (raw : Text) : Text := if (readNumber raw).isFinite then raw else ['0']

def resolve (lookup : Lookup) (token : Text) : Reading Text := do
  let token := Text.trim token
  if Reference.isReference token then
    let key ← CellKey.ofReference token
    modify (note key)
    return numericText (lookup key)
  else return token

def operand (lookup : Lookup) (token : Text) : Reading Binary64 :=
  readNumber <$> resolve lookup token

def divide (x y : Binary64) : Reading Binary64 :=
  if y.isZero then failure .divisionByZero else pure (x.div y)

/-- Folds the products and quotients of a token list from left to right. -/
def foldProducts (lookup : Lookup) (left : Text) : List Text → Reading (List Text)
  | [] => pure [left]
  | ['*'] :: rest => do
    let x ← operand lookup left
    match rest with
    | [] => failure .missingOperand
    | right :: rest =>
      let y ← operand lookup right
      foldProducts lookup (NumberDisplay.display (x.mul y)) rest
  | ['/'] :: rest => do
    let x ← operand lookup left
    match rest with
    | [] => failure .missingOperand
    | right :: rest =>
      let y ← operand lookup right
      let z ← divide x y
      foldProducts lookup (NumberDisplay.display z) rest
  | [operator] => pure [left, operator]
  | operator :: next :: rest => do
    let tokens ← foldProducts lookup next rest
    return left :: operator :: tokens

/-- Adds up a token list from left to right; whatever is no plus sign subtracts. -/
def foldTerms (lookup : Lookup) (total : Binary64) : List Text → Reading Binary64
  | [] => pure total
  | [_] => failure .missingOperand
  | operator :: right :: rest => do
    let y ← operand lookup right
    foldTerms lookup (if operator = ['+'] then total.add y else total.sub y) rest

def sum (lookup : Lookup) : List Text → Reading Binary64
  | [] => failure .emptyFormula
  | first :: rest => do
    let x ← operand lookup first
    foldTerms lookup x rest

def products (lookup : Lookup) : List Text → Reading (List Text)
  | [] => pure []
  | first :: rest => foldProducts lookup first rest

def reading (lookup : Lookup) : Formula → Reading Text
  | .value token => resolve lookup token
  | .expression tokens => do
    let terms ← products lookup tokens
    return NumberDisplay.display (← sum lookup terms)

end Evaluation

structure Evaluated where
  text : Text
  dependencies : List CellKey
  deriving DecidableEq, Repr

def Formula.evaluate (formula : Formula) (lookup : Lookup) : Except Fault Evaluated :=
  (Evaluation.reading lookup formula []).map fun (text, cells) => ⟨text, cells⟩

end FormulaGrid
