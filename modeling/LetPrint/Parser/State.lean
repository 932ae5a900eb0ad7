import LetPrint.Bindings
import LetPrint.Failure
import LetPrint.Source.Excerpt
import LetPrint.Token.Basic
import LetPrint.Upcoming

/-! A parser at work.

A parser reads a list of tokens from left to right. It knows its place, which
tokens are left, and which names are declared so far; it also records what it
does, in order. All of that survives a fault, so that what a failed operation
has done can be seen and the parser can go on. -/
namespace LetPrint

/-- What a parser does to a token. -/
inductive ParseAction where
  /-- A statement begins with the token. -/
  | statement
  /-- The token is taken. -/
  | consume
  /-- The token declares its name. -/
  | declare
deriving DecidableEq, Repr

def ParseAction.name : ParseAction → String
  | statement => "statement"
  | consume => "consume"
  | declare => "declare"

structure ParseEvent where
  action : ParseAction
  token : Token
deriving DecidableEq, Repr

/-- A parser: all its tokens, its place among them, those that are left, the names
declared so far with the tokens that declare them, and what was done. -/
structure Parser where
  tokens : List Token
  index : Int
  rest : List Token
  symbols : Bindings Token
  events : Array ParseEvent
deriving DecidableEq, Repr

/-- Why a parser cannot do what it is asked. -/
inductive ParseFault where
  /-- The next token, if there is one, has none of the expected kinds. -/
  | unexpected (expected : List TokenKind) (found : Option Token)
  /-- The name of a declaration is declared already, by `first`. -/
  | redeclared (name first : Token)
  /-- The name of an operand is not declared. -/
  | undeclared (name : Token)
  /-- A number token whose text is no numeral. -/
  | badNumeral (text : String)
  /-- An operator token whose text is no operator. -/
  | badOperator (text : String)
  /-- A token was to be taken where none is left. -/
  | pastLastToken
  /-- A statement was to be parsed where no token is left. -/
  | noStatement
  /-- A name was declared by hand that is declared already. -/
  | declaredTwice (name : String)
deriving DecidableEq, Repr

/-- Parsing: an operation that moves a parser and gives a result or a fault. -/
abbrev Parse (α : Type) := EStateM ParseFault Parser α

/-- The empty span after the last of the tokens. -/
def endSpan (tokens : List Token) : Span :=
  match tokens.getLast? with
  | none => ⟨0, 0⟩
  | some token => ⟨token.span.stop, token.span.stop⟩

namespace Parser

def ofTokens (tokens : List Token) : Parser :=
  ⟨tokens, 0, tokens, ∅, #[]⟩

/-- The next token, if one is left. -/
def peek (p : Parser) : Option Token :=
  p.rest.head?

def atEnd (p : Parser) : Bool :=
  p.rest.isEmpty

/-- Whether the next token has a kind. -/
def nextIs (p : Parser) (kind : TokenKind) : Bool :=
  match p.peek with
  | none => false
  | some token => token.kind = kind

/-- The parser at another place, whatever it had taken before. -/
def seek (p : Parser) (index : Int) : Parser :=
  {p with index := index, rest := upcoming p.tokens index}

/-- The parser with one more token taken, of which `rest` are left. -/
def taking (p : Parser) (rest : List Token) : Parser :=
  {p with index := p.index + 1, rest := rest}

/-- The parser with the name of a token declared. -/
def declaring (p : Parser) (token : Token) : Parser :=
  {p with symbols := p.symbols.insert token.raw token}

/-- The parser with one more action on record. -/
def noting (p : Parser) (action : ParseAction) (token : Token) : Parser :=
  {p with events := p.events.push ⟨action, token⟩}

end Parser

namespace Parse

/-- Takes the next token, whatever it is. -/
def advance : Parse Token := fun p =>
  match p.rest with
  | [] => .error .pastLastToken p
  | token :: rest => .ok token (p.taking rest)

/-- Takes the next token if it has one of the kinds. -/
def consume (kinds : List TokenKind) : Parse Token := fun p =>
  match p.rest with
  | [] => .error (.unexpected kinds none) p
  | token :: rest =>
    if token.kind ∈ kinds then .ok token ((p.noting .consume token).taking rest)
    else .error (.unexpected kinds (some token)) p

/-- Declares the name of a token. -/
def declare (token : Token) : Parse Unit := fun p =>
  if p.symbols.contains token.raw then .error (.declaredTwice token.raw) p
  else .ok () (p.declaring token)

/-- Puts an action on record. -/
def note (action : ParseAction) (token : Token) : Parse Unit := fun p =>
  .ok () (p.noting action token)

end Parse

namespace ParseFault

/-- The kinds of token that would do, in words. -/
def expectedText (kinds : List TokenKind) : String :=
  " or ".intercalate (kinds.map TokenKind.describe)

/-- The token that was found, in words. -/
def foundText : Option Token → String
  | none => "end of input"
  | some token => "'" ++ token.raw ++ "'"

/-- The span of the token that was found, or of the end of the tokens. -/
def foundSpan (tokens : List Token) : Option Token → Span
  | none => endSpan tokens
  | some token => token.span

/-- A message, under the excerpt of the source that it is about if the source is known. -/
def located (source : Option Source) (span : Span) (message : String) : String :=
  match source with
  | none => message
  | some source => source.excerpt span message

/-- The fault as a failure of parsing `tokens`, which come from `source` if it is
known. -/
def failure (source : Option Source) (tokens : List Token) : ParseFault → Failure
  | unexpected kinds found =>
    let expected := expectedText kinds
    .diagnostic (.unexpected expected (foundText found)
      (located source (foundSpan tokens found)
        ("expected " ++ expected ++ ", found " ++ foundText found)))
  | redeclared name first =>
    .diagnostic (.naming .redeclared name.raw
      (located source name.span ("variable " ++ name.raw ++ " already declared at offset " ++
        Text.Decimal.write first.span.start)))
  | undeclared name =>
    .diagnostic (.naming .undeclared name.raw
      (located source name.span ("variable " ++ name.raw ++ " not declared")))
  | badNumeral text => .badNumeral text
  | badOperator text => .badOperator text
  | pastLastToken => .pastLastToken
  | noStatement => .noStatement
  | declaredTwice name => .declaredTwice name

/-- Where the fault is, if it is in the tokens. -/
def place? (tokens : List Token) : ParseFault → Option Span
  | unexpected _ found => some (foundSpan tokens found)
  | redeclared name _ => some name.span
  | undeclared name => some name.span
  | _ => none

/-- The offsets that the message cites. -/
def citedOffsets : ParseFault → List Int
  | redeclared _ first => [first.span.start]
  | _ => []

/-- Why the fault cannot be put in words, if it cannot. -/
def obstacle? (source : Option Source) (tokens : List Token) (fault : ParseFault) :
    Option Failure :=
  if fault.citedOffsets.all Text.Decimal.fits then
    source.bind fun s => (fault.place? tokens).bind s.obstacle?
  else some .integerTooLong

/-- The failure that parsing `tokens` ends with: the fault in words, unless it cannot be put in
words. The tokens of a text are never too far out for that (`reported_of_tokenize`). -/
def reported (source : Option Source) (tokens : List Token) (fault : ParseFault) : Failure :=
  (fault.obstacle? source tokens).getD (fault.failure source tokens)

end ParseFault

end LetPrint
