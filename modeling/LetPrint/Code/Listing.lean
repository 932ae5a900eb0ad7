import LetPrint.Code.Instr
import LetPrint.Diagnostic
import LetPrint.Text.Blank
import LetPrint.Text.Lines

/-! Listings.

A listing writes one instruction to a line: the mnemonic, and the argument after
a space if there is one.

    PUSH 10
    STORE x
    PUSH x
    PRINT

Reading is generous about layout: words may be set off by any blanks, lines may
end in any way, and empty lines do not count. The argument of `PUSH` is an
integer if it looks like one, and otherwise a variable. -/
namespace LetPrint.Listing

/-- The text of an instruction list. -/
def chars (code : List Instr) : List Char :=
  code.flatMap fun instr => instr.phrase.chars ++ ['\n']

def write (code : List Instr) : String :=
  String.ofList (chars code)

/-- What is wrong with a line. -/
inductive LineFault where
  /-- No instruction has that mnemonic. -/
  | unknownMnemonic (word : String)
  /-- The instruction does not take that many arguments. -/
  | argumentCount (op : Opcode) (count : Nat)
deriving DecidableEq, Repr

/-- A line that is no instruction, by its number. -/
structure Fault where
  line : Nat
  fault : LineFault
deriving DecidableEq, Repr

/-- How many arguments an operation takes. -/
def arity : Opcode → Nat
  | .push => 1
  | .store => 1
  | _ => 0

namespace Fault

/-- The line and what is wrong with it, as a diagnostic. -/
def diagnostic (f : Fault) : Diagnostic :=
  let place := "line " ++ Text.Decimal.write f.line ++ ": "
  match f.fault with
  | .unknownMnemonic word => .machine .unknownInstruction (place ++ word)
  | .argumentCount op count =>
    .machine .malformedInstruction (place ++ op.mnemonic ++ " takes " ++
      Text.Decimal.write (arity op) ++ " argument(s), got " ++ Text.Decimal.write count)

end Fault

/-- The value of a nonempty run of ASCII digits. -/
def natural? (word : List Char) : Option Nat :=
  if !word.isEmpty && word.all Char.isDigit then some (Nat.ofDigitChars 10 word 0) else none

/-- The value of a word that looks like an integer: digits, perhaps after a minus sign. -/
def integer? : List Char → Option Int
  | '-' :: digits => (natural? digits).map fun n => -(n : Int)
  | digits => (natural? digits).map Int.ofNat

/-- What the argument of `PUSH` stands for. -/
def operand (word : List Char) : Argument :=
  match integer? word with
  | some value => .immediate value
  | none => .reference (String.ofList word)

/-- The instruction that words write. -/
def instrOf (op : Opcode) (arguments : List (List Char)) : Except LineFault Instr :=
  match op, arguments with
  | .push, [word] => .ok ⟨.push, some (operand word)⟩
  | .store, [word] => .ok ⟨.store, some (.text (String.ofList word))⟩
  | op, arguments =>
    if arguments.length = arity op then .ok ⟨op, none⟩
    else .error (.argumentCount op arguments.length)

/-- The instruction on a line, if the line is not blank. -/
def readLine (line : List Char) : Except LineFault (Option Instr) :=
  match Text.words line with
  | [] => .ok none
  | word :: arguments =>
    match Opcode.ofMnemonic? (String.ofList word) with
    | none => .error (.unknownMnemonic (String.ofList word))
    | some op => (instrOf op arguments).map some

/-- The instructions on lines that are numbered from `number` on. -/
def readLines (number : Nat) : List (List Char) → Except Fault (List Instr)
  | [] => .ok []
  | line :: lines =>
    match readLine line with
    | .error fault => .error ⟨number, fault⟩
    | .ok instr => (readLines (number + 1) lines).map (instr.toList ++ ·)

/-- The instructions of a listing, or the first line that is none. -/
def read (text : String) : Except Fault (List Instr) :=
  readLines 1 (Text.brokenLines text.toList)

end LetPrint.Listing
