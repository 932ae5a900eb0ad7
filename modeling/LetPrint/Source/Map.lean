import LetPrint.Text.Lines

/-! Places in a source text.

Offsets count characters from zero. A `Source` knows where its lines start and so
turns an offset into a line and a column, both counted from one. Offsets and
spans may also be given by hand and then lie anywhere: past the end of the text
the last line simply goes on, and an offset before the text belongs to line
zero, with its column counted from the start of the last line. -/
namespace LetPrint

/-- The characters from offset `start` up to, and without, offset `stop`. -/
structure Span where
  start : Int
  stop : Int
deriving DecidableEq, Repr

/-- A line and a column of a text. -/
structure Position where
  line : Nat
  column : Int
deriving DecidableEq, Repr

/-- The offsets that follow a line feed, in a text that begins at `offset`. -/
def offsetsAfterFeeds (offset : Nat) : List Char → List Nat
  | [] => []
  | c :: cs =>
    if c = '\n' then (offset + 1) :: offsetsAfterFeeds (offset + 1) cs
    else offsetsAfterFeeds (offset + 1) cs

/-- Where each line of a text starts. -/
def lineStartsOf (cs : List Char) : List Nat :=
  0 :: offsetsAfterFeeds 0 cs

/-- A text with its lines found. -/
structure Source where
  chars : List Char
  lineStarts : List Nat := lineStartsOf chars
  lineStarts_eq : lineStarts = lineStartsOf chars := by rfl

namespace Source

def ofText (text : String) : Source :=
  {chars := text.toList}

/-- The lines of the text. -/
def lines (s : Source) : List (List Char) :=
  Text.fedLines s.chars

/-- The line with a number, without its line feed; empty if there is no such line. -/
def line (s : Source) (number : Int) : List Char :=
  if number < 1 then [] else (s.lines[(number - 1).toNat]?).getD []

/-- The line and column of an offset. -/
def position (s : Source) (offset : Int) : Position :=
  let upTo := s.lineStarts.takeWhile fun start : Nat => (start : Int) ≤ offset
  let start := (upTo.getLast?.or s.lineStarts.getLast?).getD 0
  ⟨upTo.length, offset - start + 1⟩

end Source

end LetPrint
