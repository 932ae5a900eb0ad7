import LetPrint.CommandLine.Run

/-! The command itself: it reads the file that it is given and writes what the
command line module makes of it. -/
namespace LetPrint.CommandLine

/-- The number, up to its sign, by which a system reports a directory in place of a file. -/
def directoryNumber : UInt32 := 21

/-- Why the system could not read a file. -/
def readFaultOf : IO.Error → ReadFault
  | .noFileOrDirectory .. => .noSuchFile
  | .inappropriateType _ number _ =>
    if number = directoryNumber || number = 0 - directoryNumber then .isDirectory
    else .notDirectory
  | error => .other (toString error)

/-- The bytes of a file. -/
def readFile (path : String) : IO (Except ReadFault (List UInt8)) := do
  match ← (IO.FS.readBinFile path).toBaseIO with
  | .ok bytes => return .ok bytes.toList
  | .error error => return .error (readFaultOf error)

/-- Writes an outcome and gives the exit code. -/
def Outcome.report (o : Outcome) : IO UInt32 := do
  (← IO.getStdout).putStr o.stdout
  let stderr ← IO.getStderr
  stderr.putStr o.stderr
  match o.ending with
  | .ok code => return code.toUInt32
  | .error failure =>
    stderr.putStrLn failure.message
    return 1

end LetPrint.CommandLine

/-- The command: its arguments are the words after its name. -/
def main (arguments : List String) : IO UInt32 := do
  match LetPrint.CommandLine.readCommand arguments with
  | .error stop => (LetPrint.CommandLine.Outcome.stopped stop).report
  | .ok (options, file) =>
    let path := LetPrint.CommandLine.normalPath file
    (options.onContent path (← LetPrint.CommandLine.readFile path)).report
