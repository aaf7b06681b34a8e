import FormulaGrid.Reference

/-!
# Shifting references

Filling a cell into another one moves every reference of its text by the distance of the two. The text
is cut into runs of letters, of digits and of other characters; a run of letters that a run of digits
follows is a reference, whatever stands around it.
-/
namespace FormulaGrid.RefShift
open Digits Reference

inductive Kind where
  | letter
  | digit
  | other
  deriving DecidableEq, Repr

def kind (c : Char) : Kind :=
  if isLetter c then .letter else if isDigit c then .digit else .other

def runs (t : Text) : List Text := t.splitBy fun a b => kind a == kind b

def runKind (run : Text) : Kind := (run.head?.map kind).getD .other

def shiftReference (ref : Text) (rows cols : Int) : Except Fault Text := do
  let key ← CellKey.ofReference ref
  (key.shift rows cols).toReference

def shiftRuns (rows cols : Int) : List Text → Except Fault Text
  | [] => .ok []
  | [run] => .ok run
  | run :: next :: rest => do
    if runKind run = .letter ∧ runKind next = .digit then
      let ref ← shiftReference (run ++ next) rows cols
      let tail ← shiftRuns rows cols rest
      return ref ++ tail
    else
      let tail ← shiftRuns rows cols (next :: rest)
      return run ++ tail

def shift (t : Text) (rows cols : Int) : Except Fault Text := shiftRuns rows cols (runs t)

end FormulaGrid.RefShift
