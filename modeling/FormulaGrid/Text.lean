/-!
# Cell text

Texts are lists of characters. This file holds the blanks, in the sense of Unicode rather than ASCII,
and trimming.
-/
namespace FormulaGrid

abbrev Text := List Char

namespace Text

/-- Blanks are the Unicode spaces together with the control separators U+001C to U+001F. -/
def isBlank (c : Char) : Bool :=
  let n := c.toNat
  (0x09 ≤ n && n ≤ 0x0d) || (0x1c ≤ n && n ≤ 0x20) || n == 0x85 || n == 0xa0 || n == 0x1680 ||
    (0x2000 ≤ n && n ≤ 0x200a) || n == 0x2028 || n == 0x2029 || n == 0x202f || n == 0x205f ||
    n == 0x3000

def trimStart (t : Text) : Text := t.dropWhile isBlank

def trimEnd (t : Text) : Text := (t.reverse.dropWhile isBlank).reverse

def trim (t : Text) : Text := trimEnd (trimStart t)

theorem trimStart_suffix (t : Text) : trimStart t <:+ t := List.dropWhile_suffix _

theorem trimEnd_length (t : Text) : (trimEnd t).length ≤ t.length := by
  simpa [trimEnd] using (List.dropWhile_suffix (l := t.reverse) isBlank).length_le

end Text

end FormulaGrid
