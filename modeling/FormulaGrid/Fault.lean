import FormulaGrid.Text

/-!
# What can go wrong

A `FormulaError` is a failure of evaluation that the cell itself displays. A `Fault` is anything an
operation of the grid can stop with; a displayed failure is one of them.
-/
namespace FormulaGrid

inductive FormulaError where
  | invalidReference (ref : Text)
  | divisionByZero
  | missingOperand
  | emptyFormula
  deriving DecidableEq, Repr

namespace FormulaError

def message : FormulaError → Text
  | .invalidReference ref => "Invalid cell reference: ".toList ++ ref
  | .divisionByZero => "Division by zero".toList
  | .missingOperand => "Missing operand".toList
  | .emptyFormula => "Empty formula".toList

def describe (e : FormulaError) : Text := "Error: ".toList ++ e.message

/-- A failing cell shows the description once more marked as an error. -/
def display (e : FormulaError) : Text := "Error: ".toList ++ e.describe

end FormulaError

inductive Fault where
  | formula (e : FormulaError)
  /-- a decimal integer has more digits than are converted -/
  | numeralTooLong
  /-- a setting is no integer -/
  | notAnInteger
  | columnOutOfRange (col : Int)
  /-- an invalidation exceeded the depth limit -/
  | circular
  /-- an answer has to show a number that is not finite, for which a JSON text has no form -/
  | numberNotFinite
  deriving DecidableEq, Repr

end FormulaGrid
