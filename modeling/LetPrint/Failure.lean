import LetPrint.Diagnostic
import LetPrint.Text.Quoted
import LetPrint.Text.Utf8
import LetPrint.Text.Decimal

/-! Everything that can end an operation without a result.

Most failures are diagnostics. The others are no fault of a program: an integer
is too long for the text that should hold it, or a row too long for any text, a
tree or a token was put together wrongly by hand, an operation was called where it has no meaning, a receiver of
printed values refuses one, or a file is no text. -/
namespace LetPrint

inductive Failure where
  /-- The language says what is wrong. -/
  | diagnostic (d : Diagnostic)
  /-- There is no token left to take. -/
  | pastLastToken
  /-- A statement was asked for where the tokens end. -/
  | noStatement
  /-- A name that is declared already was declared by hand. -/
  | declaredTwice (name : String)
  /-- An error about a name was given a kind that is about something else. -/
  | notAboutNames (code : ErrorCode)
  /-- A text would have to hold an integer with too many digits. -/
  | integerTooLong
  /-- A text would have to repeat a character more often than a text can be long. -/
  | repetitionTooLong
  /-- The text of a number token is no numeral. -/
  | badNumeral (text : String)
  /-- The text of an operator token is no operator. -/
  | badOperator (text : String)
  /-- There is no backend of that name. -/
  | unknownBackend (name : String)
  /-- The machine failed where it has no instruction to blame. -/
  | noInstruction
  /-- The receiver of printed values takes no more. -/
  | sinkFull
  /-- An integer was divided by zero outside of any program. -/
  | zeroDivisor
  /-- A file holds bytes that are no UTF-8. -/
  | undecodable (fault : Text.Utf8.Fault)
  /-- A file name holds the null character. -/
  | nullInPath
deriving DecidableEq, Repr

namespace Text.Utf8

def Problem.text : Problem → String
  | invalidStart => "invalid start byte"
  | invalidContinuation => "invalid continuation byte"
  | truncated => "unexpected end of data"

/-- The fault in one text. A single byte is shown. -/
def Fault.message (f : Fault) : String :=
  let place :=
    if f.count = 1 then
      "byte 0x" ++ String.ofList (hexDigits 2 f.first.toNat) ++ " in position " ++
        Decimal.write f.position
    else
      "bytes in position " ++ Decimal.write f.position ++ "-" ++
        Decimal.write (f.position + f.count - 1 : Nat)
  "'utf-8' codec can't decode " ++ place ++ ": " ++ f.problem.text

end Text.Utf8

namespace Failure

/-- A quoted text, cut off after 200 characters. -/
def shortQuoted (text : String) : String :=
  String.ofList ((Text.quotedChars text.toList).take 200)

/-- The failure in one text. -/
def message : Failure → String
  | diagnostic d => d.message
  | pastLastToken => "tried advancing past the last token"
  | noStatement => "parse_stmt called at end of input"
  | declaredTwice name => name ++ " declared twice"
  | notAboutNames code => "not a semantic error kind: ErrorCode." ++ code.name
  | integerTooLong =>
    "Exceeds the limit (" ++ Text.Decimal.write Text.Decimal.digitLimit ++
      " digits) for integer string conversion; " ++
      "use sys.set_int_max_str_digits() to increase the limit"
  | repetitionTooLong => "cannot fit 'int' into an index-sized integer"
  | badNumeral text => "invalid literal for int() with base 10: " ++ shortQuoted text
  | badOperator text => Text.quoted text ++ " is not a valid BinOp"
  | unknownBackend name =>
    "unknown backend " ++ Text.quoted name ++ ", expected one of ['tree', 'vm']"
  | noInstruction => "list index out of range"
  | sinkFull => "sink full"
  | zeroDivisor => "integer division or modulo by zero"
  | undecodable fault => fault.message
  | nullInPath => "embedded null byte"

end Failure

namespace Diagnostic

/-- The diagnostic about a name, unless the kind of error is about something else. -/
def aboutName (code : ErrorCode) (identifier detail : String) : Except Failure Diagnostic :=
  match NameFault.ofCode? code with
  | some fault => .ok (.naming fault identifier detail)
  | none => .error (.notAboutNames code)

end Diagnostic

end LetPrint
