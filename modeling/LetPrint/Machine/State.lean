import LetPrint.Code.Instr
import LetPrint.Store
import LetPrint.Syntax.Describe
import LetPrint.Upcoming

/-! The stack machine at rest.

A machine has its instructions, the place of the next one, a stack of operands
with the last pushed on top, and a store. A fault names the instruction that it
happened at; an operation called by hand while no instruction is next has none
to name. -/
namespace LetPrint

structure Machine where
  code : List Instr
  ip : Int
  stack : List Int
  store : Store
deriving DecidableEq, Repr

/-- What a machine is run with: a sink for printed values, and operations that it
is to know nothing of. -/
structure Machine.Setup where
  sink : Option Sink
  disabled : List Opcode

/-- Why a machine cannot go on. -/
inductive MachineFault where
  | emptyStack
  | unbound (name : String)
  /-- An argument that cannot be pushed. -/
  | badOperand (arg : Option Argument)
  /-- An argument that cannot be bound. -/
  | badTarget (arg : Option Argument)
  | divisionByZero
  /-- An operation that the machine knows nothing of. -/
  | noHandler (op : Opcode)
deriving DecidableEq, Repr

/-- What ends a step of a machine. -/
inductive MachineError where
  /-- A fault, with the place of the machine and the instruction there. -/
  | fault (fault : MachineFault) (ip : Int) (instr : Option Instr)
  /-- The sink refuses a value. -/
  | refused (refusal : Refusal)
deriving DecidableEq, Repr

/-- An operation that moves a machine and gives a result or an error. -/
abbrev MachineStep (α : Type) := EStateM MachineError Machine α

namespace Machine

/-- A machine about to run. -/
def load (code : List Instr) : Machine :=
  ⟨code, 0, [], ∅⟩

/-- A setup with nothing disabled. -/
def Setup.plain (sink : Option Sink) : Setup :=
  ⟨sink, []⟩

/-- The machine with more instructions at the end. -/
def append (m : Machine) (code : List Instr) : Machine :=
  {m with code := m.code ++ code}

/-- The machine with another instruction next. -/
def seek (m : Machine) (ip : Int) : Machine :=
  {m with ip := ip}

/-- The instructions that are to be carried out, in order. -/
def left (m : Machine) : List Instr :=
  upcoming m.code m.ip

/-- The next instruction, if one is left. -/
def next (m : Machine) : Option Instr :=
  m.left.head?

end Machine

namespace MachineFault
open Text

def code : MachineFault → ErrorCode
  | emptyStack => .stackUnderflow
  | unbound _ => .unboundName
  | badOperand _ => .malformedInstruction
  | badTarget _ => .malformedInstruction
  | divisionByZero => .divisionByZero
  | noHandler _ => .unknownInstruction

/-- An argument, or the lack of one, so that its sort can be seen. -/
def argumentPhrase : Option Argument → Phrase
  | none => Phrase.text "None"
  | some arg => arg.inspected

/-- The fault in words. -/
def phrase : MachineFault → Phrase
  | emptyStack => Phrase.text "pop from empty operand stack"
  | unbound name => Phrase.text (name ++ " has no value")
  | badOperand arg => Phrase.text "bad PUSH operand " ++ argumentPhrase arg
  | badTarget arg => Phrase.text "bad STORE target " ++ argumentPhrase arg
  | divisionByZero => Phrase.text "right operand is 0"
  | noHandler op => Phrase.text "no handler for " ++ op.inspected

end MachineFault

namespace MachineError
open Text

/-- The fault and where it happened, in words. The place of an instruction is never
too long to show. -/
def phrase (fault : MachineFault) (ip : Int) (instr : Instr) : Phrase :=
  fault.phrase ++ Phrase.text (" (ip=" ++ Decimal.write ip ++ ", instr=") ++ instr.phrase ++
    Phrase.text ")"

/-- The error as a failure. It is a diagnostic if there is an instruction to name
and every integer in the message can be shown. -/
def failure : MachineError → Failure
  | fault _ _ none => .noInstruction
  | fault f ip (some instr) =>
    match (phrase f ip instr).writeShort? with
    | some detail => .diagnostic (.machine f.code detail)
    | none => .integerTooLong
  | refused refusal => refusal.failure

end MachineError

end LetPrint
