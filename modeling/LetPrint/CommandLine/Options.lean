import LetPrint.CommandLine.Usage
import LetPrint.CommandLine.Words
import LetPrint.Pipeline

/-! What a command asks for.

The words are taken from left to right. Options act as they come; the first
plain word names the file, and what is left over at the end is refused. -/
namespace LetPrint.CommandLine

/-- What to do with the program in a file. -/
structure Options where
  /-- The backend; none if the option for it was given nothing but the word that
  ends the options. The program is then run as it stands. -/
  backend : Option Backend
  tokens : Bool
  ast : Bool
  bytecode : Bool
  verbose : Bool
deriving DecidableEq, Repr

namespace Options

def default : Options :=
  ⟨some .vm, false, false, false, false⟩

end Options

/-- Why the words ask for nothing that can be done with a file. -/
inductive Stop where
  | help
  | complaint (text : String)
deriving DecidableEq, Repr

/-- A complaint about an option. -/
def Stop.about (name : OptionName) (text : String) : Stop :=
  .complaint ("argument " ++ name.title ++ ": " ++ text)

/-- What the words taken so far ask for. -/
structure Request where
  options : Options
  file : Option String
  extras : List String
deriving DecidableEq, Repr

/-- A complaint about a value for an option that takes none. -/
def ignoredValue (name : OptionName) (value : List Char) : Stop :=
  .about name ("ignored explicit argument " ++ Text.quoted (String.ofList value))

/-- An option with a value of its own. -/
def equatedOption (name : OptionName) (value : List Char) :
    Except Stop (List (OptionName × Option (List Char))) :=
  match name with
  | .backend => .ok [(.backend, some value)]
  | name => .error (ignoredValue name value)

/-- A short option with letters joined to it: its value if it takes one, and
otherwise more short options. The last of the options may lack a value that it
needs. -/
def joinedOption (name : OptionName) :
    List Char → Except Stop (List (OptionName × Option (List Char)))
  | [] => .ok [(name, none)]
  | letter :: letters =>
    if name = .backend then .ok [(.backend, some (letter :: letters))]
    else match OptionName.ofSpelling? (String.ofList ['-', letter]) with
      | none => .error (ignoredValue name (letter :: letters))
      | some next => (joinedOption next letters).map ((name, none) :: ·)

/-- The options of a word, each with its value. -/
def unjoined (name : OptionName) :
    Attached → Except Stop (List (OptionName × Option (List Char)))
  | .joined letters => joinedOption name letters
  | .equated value => equatedOption name value

/-- The backend that a value names. The word that ends the options names none. -/
def chosenBackend (value : String) : Except Stop (Option Backend) :=
  if value = "--" then .ok none
  else match Backend.ofName? value with
    | some backend => .ok (some backend)
    | none => .error (.about .backend ("invalid choice: " ++ Text.quoted value ++
        " (choose from 'tree', 'vm')"))

/-- The options with one more taken into account. -/
def Options.set (options : Options) : OptionName × Option (List Char) → Except Stop Options
  | (.help, _) => .error .help
  | (.backend, value) => do
    let backend ← chosenBackend (String.ofList (value.getD []))
    return {options with backend := backend}
  | (.tokens, _) => .ok {options with tokens := true}
  | (.ast, _) => .ok {options with ast := true}
  | (.bytecode, _) => .ok {options with bytecode := true}
  | (.verbose, _) => .ok {options with verbose := true}

/-- The options of a word, with the next word as the value of the last one if that
needs a value, and the words after those. -/
def completed (options : List (OptionName × Option (List Char))) (rest : List (String × Word)) :
    Except Stop (List (OptionName × Option (List Char)) × List (String × Word)) :=
  if options.getLast? = some (.backend, none) then
    match rest with
    | (text, .plain) :: rest => .ok (options.dropLast ++ [(.backend, some text.toList)], rest)
    | _ => .error (.about .backend "expected one argument")
  else .ok (options, rest)

/-- The request with the next words taken, and the words after those. -/
def Request.take (request : Request) (text : String) (word : Word) (rest : List (String × Word)) :
    Except Stop (Request × List (String × Word)) :=
  match word, request.file, rest with
  | .plain, none, (_, .separator) :: rest => .ok ({request with file := some text}, rest)
  | .plain, none, rest => .ok ({request with file := some text}, rest)
  | .separator, none, (text, _) :: rest => .ok ({request with file := some text}, rest)
  | .option name attached, _, rest => do
    let options ← unjoined name attached
    let (options, rest) ← completed options rest
    let options ← options.foldlM Options.set request.options
    return ({request with options := options}, rest)
  | _, _, rest => .ok ({request with extras := request.extras ++ [text]}, rest)

/-- The request with all words taken. Each turn takes at least one of them, so that as
many turns as there are words are enough. -/
def Request.takeAll (turns : Nat) (request : Request) :
    List (String × Word) → Except Stop Request
  | [] => .ok request
  | (text, word) :: rest =>
    match turns with
    | 0 => .ok request
    | turns + 1 => do
      let (request, rest) ← request.take text word rest
      takeAll turns request rest

/-- The options and the file of a command, or why there are none. -/
def readCommand (arguments : List String) : Except Stop (Options × String) := do
  let words ← (classifyAll arguments).mapError Stop.complaint
  let request ← Request.takeAll words.length ⟨.default, none, []⟩ words
  match request.file, request.extras with
  | none, _ => throw (.complaint "the following arguments are required: FILE")
  | some file, [] => return (request.options, file)
  | some _, extras => throw (.complaint ("unrecognized arguments: " ++ " ".intercalate extras))

end LetPrint.CommandLine
