import LetPrint.Text.Phrase
import LetPrint.Token.Lexer

/-! Token dumps.

The plain dump writes one token to a row, with its place as offsets and as lines
and columns. The gutter dump first shows the source, line by line, with a row of
carets under the characters that some token covers. A token put together by hand
may stand so far out that an integer in its row is too long to show; then there
is no dump (`Lexer.dump?`, `Lexer.gutterDump?`). -/
namespace LetPrint

/-- The row of a token, part by part. -/
def Token.dumpPhrase (t : Token) (s : Source) : Text.Phrase :=
  let start := s.position t.span.start
  let stop := s.position t.span.stop
  [ "Token \x7b kind: " ++ t.kind.name ++ ", raw: \"" ++ Text.asciiEscaped t.raw ++
      "\", span: [", t.span.start, ",", t.span.stop, ") @ ", (start.line : Int), ":", start.column,
    "-", (stop.line : Int), ":", stop.column, " \x7d" ]

/-- Whether an offset lies in the span of one of the tokens. -/
def covered (tokens : List Token) (offset : Int) : Bool :=
  tokens.any fun t => t.span.start ≤ offset && offset < t.span.stop

/-- Carets under the covered characters of a line that starts at an offset, and
blanks under the others, up to the last caret. -/
def markRow (tokens : List Token) (start : Nat) (line : List Char) : List Char :=
  let marks := (List.range line.length).map fun i : Nat =>
    if covered tokens (start + i : Nat) then '^' else ' '
  (marks.reverse.dropWhile (· = ' ')).reverse

/-- A source line with its number in front, and the row of carets if it has any. -/
def gutterRows (tokens : List Token) (number start : Nat) (line : List Char) : List (List Char) :=
  let marks := markRow tokens start line
  (Text.Decimal.rightAligned 4 (Text.Decimal.chars number) ++ " | ".toList ++ line) ::
    if marks.isEmpty then [] else ["     | ".toList ++ marks]

/-- The lines of a text without an empty last one. -/
def Source.shownLines (s : Source) : List (List Char) :=
  if s.lines.getLast? = some [] then s.lines.dropLast else s.lines

namespace Lexer

/-- The tokens, one to a row, part by part. -/
def dumpPhrase (l : Lexer) : Text.Phrase :=
  .joined "\n" (l.tokens.map fun t => t.dumpPhrase l.source)

/-- The tokens, one to a row. -/
def dump (l : Lexer) : String :=
  l.dumpPhrase.write

/-- The plain dump, unless it holds an integer too long to show. -/
def dump? (l : Lexer) : Option String :=
  l.dumpPhrase.writeShort?

/-- The rows of the source with carets under its tokens. -/
def sourceRows (l : Lexer) : List (List Char) :=
  ((l.source.shownLines.zip l.source.lineStarts).zipIdx 1).flatMap fun ((line, start), number) =>
    gutterRows l.tokens number start line

/-- The source with carets under its tokens, and a dump of the tokens after it. -/
def withSource (l : Lexer) (dump : String) : String :=
  String.ofList (['\n'].intercalate (l.sourceRows ++ [[], dump.toList]))

/-- The source with carets under its tokens, and the tokens. -/
def gutterDump (l : Lexer) : String :=
  l.withSource l.dump

/-- The gutter dump, unless it holds an integer too long to show. -/
def gutterDump? (l : Lexer) : Option String :=
  if Text.Decimal.fits l.source.shownLines.length then l.dump?.map l.withSource else none

end Lexer

end LetPrint
