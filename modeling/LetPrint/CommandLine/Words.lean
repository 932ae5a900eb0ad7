import LetPrint.Text.Numeral

/-! The words of a command.

A word is the spelling of an option, possibly with a value attached, or it is
plain. Long options may be cut short as long as only one option is meant, and
other short ones, or a value, may be joined to short ones. A plain word `--` ends the
options: every word after it is plain, whatever it looks like. -/
namespace LetPrint.CommandLine

/-- The options of the command. -/
inductive OptionName where
  | help
  | backend
  | tokens
  | ast
  | bytecode
  | verbose
deriving DecidableEq, Repr

namespace OptionName

/-- How the option may be written. -/
def spellings : OptionName → List String
  | help => ["-h", "--help"]
  | backend => ["-b", "--backend"]
  | tokens => ["--tokens"]
  | ast => ["--ast"]
  | bytecode => ["--bytecode"]
  | verbose => ["-v", "--verbose"]

/-- How a message calls the option. -/
def title (name : OptionName) : String :=
  "/".intercalate name.spellings

def all : List OptionName :=
  [help, backend, tokens, ast, bytecode, verbose]

/-- Every spelling with its option, in order. -/
def table : List (String × OptionName) :=
  all.flatMap fun name => name.spellings.map (·, name)

def ofSpelling? (spelling : String) : Option OptionName :=
  table.lookup spelling

end OptionName

/-- What is written in one word with an option: letters joined to a short option,
perhaps none, or a value after an equals sign. -/
inductive Attached where
  | joined (letters : List Char)
  | equated (value : List Char)
deriving DecidableEq, Repr

/-- What a word is. -/
inductive Word where
  | plain
  /-- An option and what is attached to it. -/
  | option (name : OptionName) (attached : Attached)
  /-- A word that looks like an option and is none. -/
  | unknown
  /-- The word that ends the options. -/
  | separator
deriving DecidableEq, Repr

/-- A text around its first equals sign. -/
def splitAtEquals? (word : List Char) : Option (List Char × List Char) :=
  match word.dropWhile (· ≠ '=') with
  | [] => none
  | _ :: value => some (word.takeWhile (· ≠ '='), value)

/-- The options that a long spelling, perhaps cut short, can mean. -/
def longMatches (spelling : List Char) : List (String × OptionName) :=
  OptionName.table.filter fun (known, _) => spelling.isPrefixOf known.toList

/-- Whether a text is a nonempty run of digits. -/
def isDigits (cs : List Char) : Bool :=
  !cs.isEmpty && cs.all fun c => (Text.Numeral.digitValue? c).isSome

/-- Whether a word is a negative number, perhaps with a decimal point. A line feed
may follow it. -/
def isNegativeNumber (word : List Char) : Bool :=
  let isDigit := fun c => (Text.Numeral.digitValue? c).isSome
  match (if word.getLast? = some '\n' then word.dropLast else word) with
  | '-' :: number =>
    isDigits number ||
      match number.dropWhile isDigit with
      | '.' :: decimals => isDigits decimals
      | _ => false
  | _ => false

/-- What a word with a hyphen in front is when no option is spelled like it. -/
def unspelled (word : List Char) : Word :=
  if isNegativeNumber word || word.contains ' ' then .plain else .unknown

/-- Whether an option is written with a single hyphen. -/
def isShort (spelling : List Char) : Bool :=
  spelling.take 2 ≠ ['-', '-']

/-- An option spelled out before an equals sign, and what is after it. After a short
option the sign does not count, unless it ends the word. -/
def equatedOption? (word : List Char) : Option Word := do
  let (spelling, value) ← splitAtEquals? word
  let name ← OptionName.ofSpelling? (String.ofList spelling)
  return .option name (if isShort spelling && !value.isEmpty then .joined value else .equated value)

/-- What a word with two hyphens in front is, or how it is ambiguous: an option cut
short, if the spelling of one begins like it. -/
def classifyLong (word : List Char) : Except String Word :=
  let (spelling, attached) := match splitAtEquals? word with
    | some (spelling, value) => (spelling, Attached.equated value)
    | none => (word, .joined [])
  match longMatches spelling with
  | [] => .ok (unspelled word)
  | [(_, name)] => .ok (.option name attached)
  | several =>
    .error ("ambiguous option: " ++ String.ofList word ++ " could match " ++
      ", ".intercalate (several.map Prod.fst))

/-- What a word with one hyphen and a letter in front is: that option with the
other letters joined to it. -/
def classifyShort (word : List Char) (letter : Char) (letters : List Char) : Word :=
  match OptionName.ofSpelling? (String.ofList ['-', letter]) with
  | some name => .option name (.joined letters)
  | none => unspelled word

/-- What a word before the separator is, or how it is ambiguous. -/
def classify (text : String) : Except String Word :=
  let word := text.toList
  match OptionName.ofSpelling? text, equatedOption? word, word with
  | some name, _, _ => .ok (.option name (.joined []))
  | none, some option, _ => .ok option
  | none, none, '-' :: '-' :: _ => classifyLong word
  | none, none, '-' :: letter :: letters => .ok (classifyShort word letter letters)
  | none, none, _ => .ok .plain

/-- What each word is. -/
def classifyAll : List String → Except String (List (String × Word))
  | [] => .ok []
  | text :: texts =>
    if text = "--" then .ok ((text, .separator) :: texts.map (·, .plain))
    else do
      let word ← classify text
      let words ← classifyAll texts
      return (text, word) :: words

end LetPrint.CommandLine
