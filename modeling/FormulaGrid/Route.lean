import FormulaGrid.Text

/-!
# Routes

The endpoints of the service, with what their paths carry. A line feed at the very end of a path does
not count, unless a piece of the path takes it up.
-/
namespace FormulaGrid

inductive Route where
  | grid
  | rows
  | cell (row col : Text)
  | edit
  | fill
  | refresh
  | events
  deriving DecidableEq, Repr

namespace Route

def segments : Text → List Text
  | [] => [[]]
  | c :: t =>
    if c = '/' then [] :: segments t
    else
      match segments t with
      | [] => [[c]]
      | s :: rest => (c :: s) :: rest

def dropLineFeed (path : Text) : Text :=
  if path.getLast? = some '\n' then path.dropLast else path

def fixed? (path : Text) : Option Route :=
  match String.ofList (dropLineFeed path) with
  | "/grid" => some .grid
  | "/grid/rows" => some .rows
  | "/grid/cell" => some .edit
  | "/grid/fill" => some .fill
  | "/grid/refresh" => some .refresh
  | "/grid/events" => some .events
  | _ => none

/-- The row and the column in the path of a cell are any texts that are not empty. -/
def cell? (path : Text) : Option Route :=
  match segments path with
  | [first, second, third, row, col] =>
    if [first, second, third] = [[], "grid".toList, "cells".toList] ∧ row ≠ [] ∧ col ≠ [] then
      some (.cell row col)
    else none
  | _ => none

def ofPath (path : Text) : Option Route := (fixed? path).or (cell? path)

def method : Route → String
  | .edit => "PUT"
  | .fill => "POST"
  | .refresh => "POST"
  | _ => "GET"

/-- Whether a path without an endpoint would have one without the slashes at its end. -/
def isMoved (path : Text) : Bool :=
  path.getLast? = some '/' && (ofPath (path.reverse.dropWhile (· = '/')).reverse).isSome

end Route

end FormulaGrid
