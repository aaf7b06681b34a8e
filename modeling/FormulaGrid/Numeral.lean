import FormulaGrid.Digits
import FormulaGrid.Binary64

/-!
# Numerals in cell text

A numeral is an optional sign followed by the word Infinity or by decimal digits of any script, with
an optional point among or before them and an optional exponent. `scan` takes the longest numeral a
text begins with, and `readNumber` the double nearest to it, or NaN when there is none.
-/
namespace FormulaGrid

inductive Numeral where
  | infinity (negative : Bool)
  | decimal (negative : Bool) (coefficient : Nat) (exponent : Int)
  deriving DecidableEq, Repr

namespace Numeral
open Digits

def takeDigits (t : Text) : Text × Text := t.span isDigit

/-- The digits before and after the point, at least one in all, and what follows. -/
def takeMantissa (t : Text) : Option (Text × Text × Text) :=
  match takeDigits t with
  | ([], '.' :: t) =>
    match takeDigits t with
    | ([], _) => none
    | (fraction, t) => some ([], fraction, t)
  | ([], _) => none
  | (whole, '.' :: t) => let (fraction, t) := takeDigits t; some (whole, fraction, t)
  | (whole, t) => some (whole, [], t)

/-- The exponent a text begins with, zero if it has none, and what follows. -/
def takeExponent (t : Text) : Int × Text :=
  match t with
  | c :: r =>
    if c = 'e' ∨ c = 'E' then
      let (negative, r) := takeSign r
      match takeDigits r with
      | ([], _) => (0, t)
      | (digits, r) => (if negative then -digitsValue digits else digitsValue digits, r)
    else (0, t)
  | [] => (0, [])

def infinityWord : Text := "Infinity".toList

/-- The longest numeral that the text begins with, and what follows it. -/
def scan (t : Text) : Option (Numeral × Text) :=
  let (negative, t) := takeSign t
  if infinityWord.isPrefixOf t then some (.infinity negative, t.drop infinityWord.length)
  else
    (takeMantissa t).map fun (whole, fraction, t) =>
      let (exponent, t) := takeExponent t
      (.decimal negative (digitsValue (whole ++ fraction)) (exponent - fraction.length), t)

def value : Numeral → Binary64
  | .infinity negative => .infinity negative
  | .decimal negative coefficient exponent => .ofDecimal negative coefficient exponent

end Numeral

def readNumber (t : Text) : Binary64 :=
  match Numeral.scan t.trimStart with
  | some (numeral, _) => numeral.value
  | none => .nan

end FormulaGrid
