import LetPrint.Failure
import LetPrint.Source.Map

/-! Source excerpts.

A diagnostic of the front end shows where it applies: the place in words, the
line it starts on with its number, and a row of carets under the characters
meant, with the message after it. A span over several lines shows its first and
its last line, with an ellipsis for the lines between. A span put together by
hand may lie so far out that an integer in the place is too long to show, or a
row too long for any text; then there is no excerpt (`Source.excerpt?`). -/
namespace LetPrint

namespace Text

/-- A text has fewer characters than this. -/
def lengthLimit : Nat := Nat.pow 2 63

/-- Whether a character can be asked for so many times in a row. A negative number asks for none,
but has its own limit. Whether there is memory for so many is left out of account. -/
def canRepeat (count : Int) : Bool :=
  -lengthLimit ≤ count && count < lengthLimit

end Text

namespace Position

/-- `line:column`. -/
def chars (p : Position) : List Char :=
  Text.Decimal.chars p.line ++ ':' :: Text.Decimal.chars p.column

/-- Whether both numbers can be shown. -/
def fits (p : Position) : Bool :=
  Text.Decimal.fits p.line && Text.Decimal.fits p.column

end Position

namespace Source

/-- A source line with its number in front. -/
def quoteRow (s : Source) (number : Nat) : List Char :=
  ' ' :: Text.Decimal.rightAligned 4 (Text.Decimal.chars number) ++ " | ".toList ++ s.line number

/-- At least one caret, `indent` characters into the source line above. -/
def caretRow (indent count : Int) : List Char :=
  "      | ".toList ++ List.replicate indent.toNat ' ' ++ List.replicate (max 1 count).toNat '^'

/-- The place in words: where a span starts and, if that differs, where it stops. -/
def header (start stop : Position) : List Char :=
  "At ".toList ++ start.chars ++ if start = stop then [] else '-' :: stop.chars

/-- The rows of an excerpt. The message stands after the last row of carets. -/
def excerptRows (s : Source) (span : Span) (message : List Char) : List (List Char) :=
  let start := s.position span.start
  let stop := s.position span.stop
  if start.line = stop.line then
    [ header start stop, s.quoteRow start.line,
      caretRow (start.column - 1) (stop.column - start.column) ++ ' ' :: message ]
  else
    [ header start stop, s.quoteRow start.line,
      caretRow (start.column - 1) ((s.line start.line).length - (start.column - 1)) ] ++
    (if start.line + 1 < stop.line then ["      | ...".toList] else []) ++
    [ s.quoteRow stop.line,
      caretRow 0 (min (stop.column - 1) (s.line stop.line).length) ++ ' ' :: message ]

/-- A message under the excerpt of the source that it is about. -/
def excerpt (s : Source) (span : Span) (message : String) : String :=
  String.ofList (['\n'].intercalate (s.excerptRows span message.toList))

/-- How many blanks and carets the rows of an excerpt ask for. -/
def repetitions (s : Source) (span : Span) : List Int :=
  let start := s.position span.start
  let stop := s.position span.stop
  if start.line = stop.line then [max 1 (stop.column - start.column), start.column - 1]
  else
    [ start.column - 1, max 1 ((s.line start.line).length - (start.column - 1)),
      max 1 (min (stop.column - 1) (s.line stop.line).length) ]

/-- Why there is no excerpt of a span, if there is none. -/
def obstacle? (s : Source) (span : Span) : Option Failure :=
  if (s.position span.start).fits && (s.position span.stop).fits then
    if (s.repetitions span).all Text.canRepeat then none else some .repetitionTooLong
  else some .integerTooLong

/-- A message under its excerpt, unless there is no excerpt. -/
def excerpt? (s : Source) (span : Span) (message : String) : Except Failure String :=
  (s.obstacle? span).elim (.ok (s.excerpt span message)) .error

end Source

end LetPrint
