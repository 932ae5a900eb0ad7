import LetPrint.Code.Listing
import LetPrint.CommandLine.Directory
import LetPrint.CommandLine.Options
import LetPrint.Record
import LetPrint.Syntax.Outline
import LetPrint.Token.Dump

/-! Carrying out a command.

A command reads one file, dumps what it was asked to dump, runs the program and
writes the values that were printed, one to a line. Nothing of them is written
unless the whole run succeeds. A diagnostic goes to the error output and makes
the command fail. -/
namespace LetPrint.CommandLine

/-- What a command wrote, and how it ended: with an exit code, or with a failure
that is no diagnostic. -/
structure Outcome where
  stdout : String
  stderr : String
  ending : Except Failure Nat

namespace Outcome

/-- The outcome of a command that did not get as far as reading a file. -/
def stopped : Stop → Outcome
  | .help => ⟨help, "", .ok 0⟩
  | .complaint text => ⟨"", complaint text, .ok 2⟩

/-- The outcome with text written before it. -/
def after (stdout stderr : String) (o : Outcome) : Outcome :=
  ⟨stdout ++ o.stdout, stderr ++ o.stderr, o.ending⟩

/-- The end of a command by a failure. -/
def failed : Failure → Outcome
  | .diagnostic d => ⟨"", d.message ++ "\n", .ok 1⟩
  | failure => ⟨"", "", .error failure⟩

end Outcome

/-- Lines of the log, if they are asked for. -/
def Options.logText (options : Options) (records : List Record) : String :=
  if options.verbose then
    String.join (records.map fun r => r.logger ++ ": " ++ r.message ++ "\n")
  else ""

/-- A text, if it is asked for. -/
def dumped (isAskedFor : Bool) (text : String) : String :=
  if isAskedFor then text else ""

/-- Values, one to a line. -/
def valueLines (values : Array Int) : String :=
  String.join (values.toList.map fun value => Text.Decimal.write value ++ "\n")

namespace Options

/-- The line of the log that says what is run. -/
def runningRecord (options : Options) (path : String) : Record :=
  let backend := match options.backend with
    | some backend => backend.name
    | none => "[]"
  .plain "letlang.runner" ("running " ++ path ++ " with the " ++ backend ++ " backend")

/-- Runs a program and writes its values. -/
def runProgram (options : Options) (path : String) (program : Program) : Outcome :=
  let running := [options.runningRecord path]
  let (report, records) :=
    match options.backend.getD .tree, program.generate with
    | .vm, .ok code => (runCode (.plain none) code, runCodeRecords (.plain none) code)
    | .vm, .error failure => (.notRun failure, [])
    | .tree, _ => (runNodes none program.nodes, runNodesRecords none program.nodes)
  (match report.result with
    | .ok values => ⟨valueLines values, "", .ok 0⟩
    | .error failure => .failed failure : Outcome).after "" (options.logText (running ++ records))

/-- Translates a program if the dump or the backend needs that, and goes on. -/
def generateAndRun (options : Options) (path : String) (program : Program) : Outcome :=
  if options.bytecode || options.backend = some .vm then
    match program.generate with
    | .ok code =>
      (options.runProgram path program).after (dumped options.bytecode (Listing.write code))
        (options.logText program.generateRecords)
    | .error failure => .failed failure
  else options.runProgram path program

/-- Draws a program if that is asked for, and goes on. -/
def drawAndRun (options : Options) (path : String) (source : Source) (program : Program) :
    Outcome :=
  if options.ast then
    match Node.drawing? ⟨false, some source⟩ (.list program.nodes) with
    | some drawing => (options.generateAndRun path program).after (drawing ++ "\n") ""
    | none => .failed .integerTooLong
  else options.generateAndRun path program

/-- The dump of the tokens, if it is asked for and all of them were found. There is no such dump if
it holds an integer too long to show. -/
def tokenDump? (options : Options) (reading : Reading) : Option String :=
  if options.tokens && reading.parser.isSome then
    reading.lexer.gutterDump?.map fun dump => dump ++ "\n"
  else some ""

/-- Goes on with what was read, after the dump of the tokens. -/
def onReading (options : Options) (path : String) (reading : Reading) : Outcome :=
  match reading.result with
  | .error failure => .failed failure
  | .ok program => options.drawAndRun path reading.lexer.source program

/-- Carries out a command on a text. -/
def onText (options : Options) (path : String) (text : String) : Outcome :=
  let reading := Reading.ofText text
  match options.tokenDump? reading with
  | none =>
    (Outcome.failed .integerTooLong).after "" (options.logText [.tokenized reading.lexer.tokens])
  | some tokens => (options.onReading path reading).after tokens (options.logText reading.records)

end Options

/-- The text that bytes of a file are. -/
def textOf (bytes : List UInt8) : Except Text.Utf8.Fault String :=
  (Text.Utf8.decode bytes).map fun cs => String.ofList (Text.unifyLineEnds cs)

/-- Carries out a command on what was read from its file. -/
def Options.onContent (options : Options) (path : String) :
    Except ReadFault (List UInt8) → Outcome
  | .error fault => .stopped (.complaint ("can't read " ++ path ++ ": " ++ fault.text))
  | .ok bytes =>
    match textOf bytes with
    | .error fault => .failed (.undecodable fault)
    | .ok text => options.onText path text

/-- Carries out a command in a directory. -/
def runIn (directory : Directory) (arguments : List String) : Outcome :=
  match readCommand arguments with
  | .error stop => .stopped stop
  | .ok (options, file) =>
    let path := normalPath file
    if path.toList.contains '\x00' then .failed .nullInPath
    else options.onContent path (directory.read path)

end LetPrint.CommandLine
