import LetPrint.Source.Map

/-! Tokens.

A token is a piece of source text with its kind and its place. The lexer only
makes tokens whose text fits their kind; a token put together by hand may hold
any text and stand anywhere. -/
namespace LetPrint

/-- The kinds of token. -/
inductive TokenKind where
  | letWord
  | printWord
  | ident
  | number
  | equals
  | operator
  | semicolon
  | openParen
  | closeParen
deriving DecidableEq, Repr

namespace TokenKind

/-- The identifier of the kind. -/
def name : TokenKind → String
  | letWord => "Let"
  | printWord => "Print"
  | ident => "Ident"
  | number => "Number"
  | equals => "Eq"
  | operator => "Operator"
  | semicolon => "Semi"
  | openParen => "OpenParen"
  | closeParen => "CloseParen"

/-- The kind by its long name. -/
def label : TokenKind → String
  | equals => "Equals"
  | semicolon => "SemiColon"
  | kind => kind.name

/-- The kind as a diagnostic calls it: the text itself where only one text has the kind. -/
def describe : TokenKind → String
  | letWord => "'let'"
  | printWord => "'print'"
  | ident => "identifier"
  | number => "number"
  | equals => "'='"
  | operator => "operator"
  | semicolon => "';'"
  | openParen => "'('"
  | closeParen => "')'"

def all : List TokenKind :=
  [letWord, printWord, ident, number, equals, operator, semicolon, openParen, closeParen]

def ofName? (name : String) : Option TokenKind :=
  all.find? fun kind => kind.name = name

end TokenKind

/-- A piece of source text with its kind and its place. -/
structure Token where
  kind : TokenKind
  raw : String
  span : Span
deriving DecidableEq, Repr

/-- A token but for its place. -/
def Token.content (t : Token) : TokenKind × String :=
  (t.kind, t.raw)

end LetPrint
