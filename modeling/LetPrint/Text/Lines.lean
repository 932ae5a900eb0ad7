/-! Where a text breaks into lines.

A program counts its lines at line feeds alone, and a final line feed opens one
more, empty line (`fedLines`). A listing is read more generously: every
character that ends a line on some system ends one here, and a final line end
opens no further line (`brokenLines`). A file on disk may end its lines in any
of the three common ways; `unifyLineEnds` makes them line feeds. -/
namespace LetPrint.Text

/-- The lines between line feeds. There is always at least one. -/
def fedLines (cs : List Char) : List (List Char) :=
  cs.splitOn '\n'

/-- A character that ends a line of a listing. -/
def isLineEnd (c : Char) : Bool :=
  let n := c.toNat
  (0x0A ≤ n && n ≤ 0x0D) || (0x1C ≤ n && n ≤ 0x1E) || n == 0x85 || n == 0x2028 || n == 0x2029

/-- The lines of a listing, without their ends. A carriage return and the line
feed after it are one line end. -/
def brokenLines : List Char → List (List Char)
  | [] => []
  | '\r' :: '\n' :: cs => [] :: brokenLines cs
  | c :: cs =>
    if isLineEnd c then [] :: brokenLines cs
    else match brokenLines cs with
      | [] => [[c]]
      | line :: lines => (c :: line) :: lines

/-- Every line end of a file as a line feed. -/
def unifyLineEnds : List Char → List Char
  | [] => []
  | '\r' :: '\n' :: cs => '\n' :: unifyLineEnds cs
  | c :: cs => (if c = '\r' then '\n' else c) :: unifyLineEnds cs

end LetPrint.Text
