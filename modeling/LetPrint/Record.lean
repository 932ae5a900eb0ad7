import LetPrint.Pipeline

/-! What a run says about itself.

Every stage keeps a log when it is asked for one: the lexer and the compiler
say how much they made, the parser says what it does to which token, and the
backends name each instruction or statement that starts. -/
namespace LetPrint

/-- A line of the log, from the stage `logger`. The parser's lines say which event
they are about. -/
structure Record where
  logger : String
  message : String
  event : Option ParseEvent
deriving DecidableEq, Repr

namespace Record

/-- A line of the log that is about no parse event. -/
def plain (logger message : String) : Record :=
  ⟨logger, message, none⟩

def tokenized (tokens : List Token) : Record :=
  .plain "letlang.tokenizer" ("tokenized " ++ Text.Decimal.write tokens.length ++ " tokens")

def parsed (event : ParseEvent) : Record :=
  let token := event.token
  ⟨"letlang.parser",
    event.action.name ++ " " ++ token.kind.name ++ " " ++ Text.quoted token.raw ++ " [" ++
      Text.Decimal.write token.span.start ++ ", " ++ Text.Decimal.write token.span.stop ++ ")",
    some event⟩

def lowered (nodes : List Node) (code : List Instr) : Record :=
  .plain "letlang.lowering" ("lowered " ++ Text.Decimal.write nodes.length ++ " statements into " ++
    Text.Decimal.write code.length ++ " instructions")

/-- The stack as a log shows it, the last pushed value last. -/
def stackText (stack : List Int) : String :=
  "[" ++ ", ".intercalate (stack.reverse.map Text.Decimal.write) ++ "]"

/-- The next instruction of a machine, if there is one. -/
def started (m : Machine) : Option Record :=
  m.next.map fun instr =>
    .plain "letlang.vm" ("| " ++ Text.Decimal.write m.ip ++ ": " ++ instr.phrase.write ++
      "  stack=" ++ stackText m.stack)

def executed (node : Node) : Record :=
  .plain "letlang.interpreter" ("execute " ++ node.worded.write)

end Record

namespace Reading

/-- The log of reading a text. -/
def records (r : Reading) : List Record :=
  match r.parser with
  | none => []
  | some parser => .tokenized r.lexer.tokens :: parser.events.toList.map .parsed

end Reading

namespace Program

/-- The log of translating a program. -/
def generateRecords (program : Program) : List Record :=
  match program.generate with
  | .ok code => [.lowered program.nodes code]
  | .error _ => []

end Program

/-- The log of running instructions. -/
def runCodeRecords (setup : Machine.Setup) (code : List Instr) : List Record :=
  (Machine.starts setup (.load code)).filterMap Record.started

/-- The log of running statements. -/
def runNodesRecords (sink : Option Sink) (nodes : List Node) : List Record :=
  (Eval.starts sink ∅ nodes).map Record.executed

namespace Backend

/-- The log of running a program. -/
def records (backend : Backend) (sink : Option Sink) (program : Program) : List Record :=
  match backend with
  | vm =>
    program.generateRecords ++
      match program.generate with
      | .ok code => runCodeRecords (.plain sink) code
      | .error _ => []
  | tree => runNodesRecords sink program.nodes

end Backend

/-- The log of running the program that a text is. -/
def runTextRecords (text backend : String) (sink : Option Sink) : List Record :=
  match Backend.ofName? backend with
  | none => []
  | some backend =>
    let reading := Reading.ofText text
    reading.records ++
      match reading.result with
      | .ok program => backend.records sink program
      | .error _ => []

end LetPrint
