import FormulaGrid.CellKey
import FormulaGrid.IntegerText

/-!
# Event data

What an event client receives for a refreshed cell: a JSON object in ASCII, where every other
character of a text is written by its UTF-16 units.
-/
namespace FormulaGrid.EventText

def hexDigits (n : Nat) : Text :=
  let digits := Nat.toDigits 16 n
  List.replicate (4 - digits.length) '0' ++ digits

def unit (n : Nat) : Text := '\\' :: 'u' :: hexDigits n

/-- Characters above U+FFFF take two units. -/
def units (c : Char) : Text :=
  if c.toNat < 0x10000 then unit c.toNat
  else
    let n := c.toNat - 0x10000
    unit (0xd800 + n / 0x400) ++ unit (0xdc00 + n % 0x400)

def escape (c : Char) : Text :=
  match c with
  | '"' => ['\\', '"']
  | '\\' => ['\\', '\\']
  | '\n' => ['\\', 'n']
  | '\r' => ['\\', 'r']
  | '\t' => ['\\', 't']
  | '\x08' => ['\\', 'b']
  | '\x0c' => ['\\', 'f']
  | c => if ' ' ≤ c && c ≤ '~' then [c] else units c

def quote (t : Text) : Text := '"' :: t.flatMap escape ++ ['"']

def cell (key : CellKey) (text : Text) : Text :=
  "\x7b\"type\": \"cell\", \"row\": ".toList ++ IntegerText.written key.row ++
    ", \"col\": ".toList ++ IntegerText.written key.col ++
    ", \"value\": ".toList ++ quote text ++ ['\x7d']

theorem hexDigits_length {n : Nat} (h : n < 0x10000) : (hexDigits n).length = 4 := by
  have := (Nat.length_toDigits_le_iff (n := n) (b := 16) (k := 4) (by decide) (by decide)).mpr h
  simp only [hexDigits, List.length_append, List.length_replicate]
  omega

end FormulaGrid.EventText
