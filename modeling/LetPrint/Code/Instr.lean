import LetPrint.Syntax.BinOp
import LetPrint.Text.Phrase
import LetPrint.Text.Quoted

/-! The instructions of the stack machine.

An instruction is an operation code with at most one argument. Only some
combinations mean something: `push` wants a value or a name to look up, `store`
wants the name to bind, and the others want nothing. The rest can be written
down all the same, and the machine says what is wrong with them. -/
namespace LetPrint

/-- What an instruction does. -/
inductive Opcode where
  | push
  | store
  | add
  | sub
  | mul
  | div
  | print
deriving DecidableEq, Repr

namespace Opcode

/-- The operation code as a number. -/
def number : Opcode → Nat
  | push => 0
  | store => 1
  | add => 2
  | sub => 3
  | mul => 4
  | div => 5
  | print => 6

/-- How the operation is written in a listing. -/
def mnemonic : Opcode → String
  | push => "PUSH"
  | store => "STORE"
  | add => "ADD"
  | sub => "SUB"
  | mul => "MUL"
  | div => "DIV"
  | print => "PRINT"

def all : List Opcode :=
  [push, store, add, sub, mul, div, print]

def ofMnemonic? (mnemonic : String) : Option Opcode :=
  all.find? fun op => op.mnemonic = mnemonic

end Opcode

/-- The operation that computes an operator. -/
def BinOp.opcode : BinOp → Opcode
  | add => .add
  | sub => .sub
  | mul => .mul
  | div => .div

/-- What an instruction is applied to. -/
inductive Argument where
  /-- A value, as it stands. -/
  | immediate (value : Int)
  /-- The value of a variable. -/
  | reference (name : String)
  /-- A name, as it stands. -/
  | text (name : String)
deriving DecidableEq, Repr

namespace Argument

/-- The argument as a listing writes it. -/
def phrase : Argument → Text.Phrase
  | immediate value => [value]
  | reference name => [name]
  | text name => [name]

/-- The argument so that its sort can be seen. -/
def inspected : Argument → Text.Phrase
  | immediate value => ["Immediate(value=", value, ")"]
  | reference name => ["VariableRef(name=", Text.quoted name, ")"]
  | text name => [Text.quoted name]

end Argument

/-- An operation and what it is applied to. -/
structure Instr where
  op : Opcode
  arg : Option Argument
deriving DecidableEq, Repr

namespace Instr

/-- The instruction as a listing writes it. -/
def phrase (i : Instr) : Text.Phrase :=
  (i.op.mnemonic : Text.Piece) :: match i.arg with
    | none => []
    | some arg => (" " : Text.Piece) :: arg.phrase

end Instr

end LetPrint
