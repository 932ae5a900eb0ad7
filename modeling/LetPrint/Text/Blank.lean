/-! Blank characters.

Blanks separate the tokens of a program and the words of a listing. The set is
the white space of Unicode: the control characters that move the cursor or
separate records, the space, and the wide, narrow and typographic spaces. -/
namespace LetPrint.Text

/-- A character that separates and is not itself part of anything. -/
def isBlank (c : Char) : Bool :=
  let n := c.toNat
  (0x09 ≤ n && n ≤ 0x0D) || (0x1C ≤ n && n ≤ 0x20) || n == 0x85 || n == 0xA0 || n == 0x1680 ||
    (0x2000 ≤ n && n ≤ 0x200A) || n == 0x2028 || n == 0x2029 || n == 0x202F || n == 0x205F ||
    n == 0x3000

/-- The maximal runs of characters that are not blank, in order. -/
def words (cs : List Char) : List (List Char) :=
  (cs.splitOnP isBlank).filter fun w => !w.isEmpty

end LetPrint.Text
