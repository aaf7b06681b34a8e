import FormulaGrid.Binary64
import FormulaGrid.CellKey
import FormulaGrid.IntegerText

/-!
# Requests

What a client of the service sends, and how its fields are read. A field that is missing or has no
value of its kind is a flaw of the request. A flaw has a place and shows what was sent there, which
for a missing field is the object that lacks it.
-/
namespace FormulaGrid

/-- A JSON value. A number written with a point or an exponent is a double, any other an integer. -/
inductive Payload where
  | null
  | bool (b : Bool)
  | integer (n : Int)
  | real (x : Binary64)
  | text (t : Text)
  | list (items : List Payload)
  | object (fields : List (String × Payload))
  deriving Inhabited

structure Request where
  method : String
  path : Text
  query : List (String × Text)
  body : Option Payload

/-- Where in a request a field is. -/
abbrev Place := List String

/-- Something faulty in a request, and what was sent there. -/
structure Flaw where
  place : Place
  shown : Payload

/-- A value read, or what is faulty. -/
abbrev Checked (α : Type) := Except (List Flaw) α

namespace Checked

/-- Two values, or all that is faulty in either. -/
def both {α β : Type} (x : Checked α) (y : Checked β) : Checked (α × β) :=
  match x, y with
  | .ok a, .ok b => .ok (a, b)
  | .ok _, .error flaws => .error flaws
  | .error flaws, .ok _ => .error flaws
  | .error flaws, .error others => .error (flaws ++ others)

def ofOption {α : Type} (flaw : Flaw) : Option α → Checked α
  | some a => .ok a
  | none => .error [flaw]

theorem both_ok {α β : Type} {x : Checked α} {y : Checked β} {a : α} {b : β} :
    both x y = .ok (a, b) ↔ x = .ok a ∧ y = .ok b := by
  cases x <;> cases y <;> simp [both]

end Checked

namespace Payload

def field? (name : String) : Payload → Option Payload
  | .object fields => fields.lookup name
  | _ => none

/-- Integers, doubles without a fraction that are below 2 ^ 63 in magnitude, truth values as 0 and 1,
and texts of integers. -/
def integer? : Payload → Option Int
  | .integer n => some n
  | .real x => x.integer?.filter fun n => n.natAbs < Nat.pow 2 63
  | .bool b => some (if b then 1 else 0)
  | .text t => IntegerText.readField? t
  | _ => none

def text? : Payload → Option Text
  | .text t => some t
  | _ => none

mutual

/-- Whether a JSON text can hold the value: every number in it is finite. -/
def isWritable : Payload → Bool
  | .real x => x.isFinite
  | .list items => itemsWritable items
  | .object fields => fieldsWritable fields
  | _ => true

def itemsWritable : List Payload → Bool
  | [] => true
  | p :: items => p.isWritable && itemsWritable items

def fieldsWritable : List (String × Payload) → Bool
  | [] => true
  | (_, p) :: fields => p.isWritable && fieldsWritable fields

end

theorem itemsWritable_eq_all (items : List Payload) :
    itemsWritable items = items.all isWritable := by
  induction items with
  | nil => rfl
  | cons p items ih => simp [itemsWritable, ih]

theorem fieldsWritable_eq_all (fields : List (String × Payload)) :
    fieldsWritable fields = fields.all fun field => field.2.isWritable := by
  induction fields with
  | nil => rfl
  | cons field fields ih => simp [fieldsWritable, ih]

/-- The flaw of an object in one of its fields. -/
def flaw (place : Place) (p : Payload) (name : String) : Flaw :=
  ⟨place ++ [name], (p.field? name).getD p⟩

def integerField (place : Place) (p : Payload) (name : String) : Checked Int :=
  .ofOption (flaw place p name) ((p.field? name).bind integer?)

def textField (place : Place) (p : Payload) (name : String) : Checked Text :=
  .ofOption (flaw place p name) ((p.field? name).bind text?)

/-- Flaws are listed in the alphabetical order of their places. -/
def key (place : Place) (p : Payload) : Checked CellKey :=
  (Checked.both (p.integerField place "col") (p.integerField place "row")).map
    fun (col, row) => ⟨row, col⟩

def keyField (place : Place) (p : Payload) (name : String) : Checked CellKey :=
  match p.field? name with
  | some (.object fields) => key (place ++ [name]) (.object fields)
  | _ => .error [flaw place p name]

end Payload

namespace Request

/-- The object sent as the body. -/
def object (r : Request) : Checked Payload :=
  match r.body with
  | some (.object fields) => .ok (.object fields)
  | _ => .error [⟨["body"], r.body.getD .null⟩]

/-- The integer in a text of the address. -/
def integerAt (place : Place) (t : Text) : Checked Int :=
  .ofOption ⟨place, .text t⟩ (IntegerText.readField? t)

/-- Of a query field given more than once the last value counts. -/
def queryInteger (r : Request) (name : String) : Checked (Option Int) :=
  match r.query.reverse.lookup name with
  | none => .ok none
  | some t => (integerAt ["query", name] t).map some

/-- The first row, and the number of rows if it is given. -/
def window (r : Request) : Checked (Int × Option Int) :=
  (Checked.both (r.queryInteger "limit") (r.queryInteger "offset")).map
    fun (limit, offset) => (offset.getD 0, limit)

def pathKey (row col : Text) : Checked CellKey :=
  (Checked.both (integerAt ["path", "col"] col) (integerAt ["path", "row"] row)).map
    fun (col, row) => ⟨row, col⟩

def editedCell (r : Request) : Checked (CellKey × Text) := do
  let p ← r.object
  Checked.both (p.key ["body"]) (p.textField ["body"] "value")

def filledCells (r : Request) : Checked (CellKey × CellKey) := do
  let p ← r.object
  Checked.both (p.keyField ["body"] "source") (p.keyField ["body"] "target")

end Request

end FormulaGrid
