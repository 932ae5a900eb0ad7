import LetPrint.Code.Emission
import LetPrint.Evaluator
import LetPrint.Machine.Run
import LetPrint.Parser.Grammar
import LetPrint.Token.Lexer

/-! From text to printed values.

A text is cut into tokens and the tokens are parsed. The program that results is
either translated for the stack machine and run there, or run as it stands; the
two backends print the same values. -/
namespace LetPrint

/-- What became of a text: the lexer after cutting it, the parser after parsing if
it came to that, and the program or the failure. -/
structure Reading where
  lexer : Lexer
  parser : Option Parser
  result : Except Failure Program

namespace Reading

def ofText (text : String) : Reading :=
  match (Lexer.ofText text).tokenize with
  | (lexer, .error unknown) =>
    ⟨lexer, none, .error (.diagnostic (unknown.diagnostic lexer.source))⟩
  | (lexer, .ok tokens) =>
    match Parse.program (.ofTokens tokens) with
    | .ok program parser => ⟨lexer, some parser, .ok program⟩
    | .error fault parser =>
      ⟨lexer, some parser, .error (fault.failure (some lexer.source) tokens)⟩

end Reading

/-- The program that a text is. -/
def readProgram (text : String) : Except Failure Program :=
  (Reading.ofText text).result

/-- A program among all lists of nodes. -/
def Program.nodes (program : Program) : List Node :=
  program.map Stmt.node

namespace Program

theorem nodes_cons (s : Stmt) (rest : Program) : nodes (s :: rest) = s.node :: nodes rest :=
  rfl

theorem nodes_append (first second : Program) :
    nodes (first ++ second) = first.nodes ++ second.nodes :=
  List.map_append

end Program

/-- The instructions of a program. -/
def Program.generate (program : Program) : Except Failure (List Instr) :=
  (LetPrint.generate program.nodes).mapError Failure.diagnostic

/-- The instructions that a text is translated to. -/
def compileText (text : String) : Except Failure (List Instr) := do
  (← readProgram text).generate

/-- What a run gave: its result, and the values that its sink took. -/
structure RunReport where
  result : Except Failure (Array Int)
  sunk : Array Int

namespace RunReport

/-- Nothing was run. -/
def notRun (failure : Failure) : RunReport :=
  ⟨.error failure, #[]⟩

end RunReport

/-- Runs instructions on a machine of their own. -/
def runCode (setup : Machine.Setup) (code : List Instr) : RunReport :=
  match Machine.run setup (.load code) with
  | .ok printed m => ⟨.ok printed, m.store.sunk⟩
  | .error error m => ⟨.error error.failure, m.store.sunk⟩

/-- Runs statements as they stand, in a store of their own. -/
def runNodes (sink : Option Sink) (nodes : List Node) : RunReport :=
  match Eval.interpret sink nodes ∅ with
  | .ok printed store => ⟨.ok printed, store.sunk⟩
  | .error error store => ⟨.error error.failure, store.sunk⟩

/-- The ways to run a program. -/
inductive Backend where
  | vm
  | tree
deriving DecidableEq, Repr

namespace Backend

def name : Backend → String
  | vm => "vm"
  | tree => "tree"

/-- All backends, in the order of their names. -/
def all : List Backend :=
  [tree, vm]

def ofName? (name : String) : Option Backend :=
  all.find? fun backend => backend.name = name

/-- Runs a program. -/
def run (backend : Backend) (sink : Option Sink) (program : Program) : RunReport :=
  match backend with
  | vm =>
    match program.generate with
    | .ok code => runCode (.plain sink) code
    | .error failure => .notRun failure
  | tree => runNodes sink program.nodes

end Backend

/-- Runs the program that a text is on the backend of a name. -/
def runText (text backend : String) (sink : Option Sink) : RunReport :=
  match Backend.ofName? backend with
  | none => .notRun (.unknownBackend backend)
  | some backend =>
    match readProgram text with
    | .error failure => .notRun failure
    | .ok program => backend.run sink program

end LetPrint
