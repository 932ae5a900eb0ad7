/-! Diagnostics.

A diagnostic is what the language itself says is wrong with a program: which
stage found it, which kind of error it is, and the particulars. Every diagnostic
has one written form (`Diagnostic.message`). -/
namespace LetPrint

/-- The kinds of error. -/
inductive ErrorCode where
  | lexerError
  | unexpectedToken
  | redeclared
  | undeclared
  | unknownNode
  | stackUnderflow
  | unknownInstruction
  | malformedInstruction
  | unboundName
  | undefinedVariable
  | unknownOperator
  | divisionByZero
deriving DecidableEq, Repr

namespace ErrorCode

/-- How the kind is worded in a message. -/
def text : ErrorCode → String
  | lexerError => "Lexer error"
  | unexpectedToken => "Unexpected token"
  | redeclared => "Redeclared identifier"
  | undeclared => "Undeclared identifier"
  | unknownNode => "Unknown node"
  | stackUnderflow => "Stack underflow"
  | unknownInstruction => "Unknown instruction"
  | malformedInstruction => "Malformed instruction"
  | unboundName => "Unbound name"
  | undefinedVariable => "Undefined variable"
  | unknownOperator => "Unknown operator"
  | divisionByZero => "Division by zero"

/-- The identifier of the kind. -/
def name : ErrorCode → String
  | lexerError => "LEXER_ERROR"
  | unexpectedToken => "UNEXPECTED_TOKEN"
  | redeclared => "REDECLARED"
  | undeclared => "UNDECLARED"
  | unknownNode => "UNKNOWN_NODE"
  | stackUnderflow => "STACK_UNDERFLOW"
  | unknownInstruction => "UNKNOWN_INSTRUCTION"
  | malformedInstruction => "MALFORMED_INSTRUCTION"
  | unboundName => "UNBOUND_NAME"
  | undefinedVariable => "UNDEFINED_VARIABLE"
  | unknownOperator => "UNKNOWN_OPERATOR"
  | divisionByZero => "DIVISION_BY_ZERO"

def all : List ErrorCode :=
  [lexerError, unexpectedToken, redeclared, undeclared, unknownNode, stackUnderflow,
    unknownInstruction, malformedInstruction, unboundName, undefinedVariable, unknownOperator,
    divisionByZero]

def ofName? (name : String) : Option ErrorCode :=
  all.find? fun code => code.name = name

end ErrorCode

/-- What can be wrong with the use of a name. -/
inductive NameFault where
  | redeclared
  | undeclared
deriving DecidableEq, Repr

namespace NameFault

def code : NameFault → ErrorCode
  | redeclared => .redeclared
  | undeclared => .undeclared

def ofCode? : ErrorCode → Option NameFault
  | .redeclared => some redeclared
  | .undeclared => some undeclared
  | _ => none

end NameFault

/-- An error of the language, by the stage that reports it. -/
inductive Diagnostic where
  /-- No token begins at `position` of the text. -/
  | lexical (position : Int) (detail : String)
  /-- `found` stands where only `expected` can. -/
  | unexpected (expected found detail : String)
  /-- A name is declared twice, or used without a declaration. -/
  | naming (fault : NameFault) (identifier detail : String)
  /-- A node has no instructions. -/
  | untranslatable (nodeKind detail : String)
  /-- The stack machine cannot go on. -/
  | machine (code : ErrorCode) (detail : String)
  /-- The evaluator cannot go on. -/
  | evaluation (code : ErrorCode) (detail : String)
  /-- An error of no particular stage. -/
  | general (code : ErrorCode) (detail : String)
deriving DecidableEq, Repr

namespace Diagnostic

/-- The name of the family of errors that a diagnostic belongs to. -/
def family : Diagnostic → String
  | lexical .. => "LexError"
  | unexpected .. => "ParseError"
  | naming .. => "SemanticError"
  | untranslatable .. => "CodeGenError"
  | machine .. => "VMError"
  | evaluation .. => "InterpreterError"
  | general .. => "LetlangError"

def code : Diagnostic → ErrorCode
  | lexical .. => .lexerError
  | unexpected .. => .unexpectedToken
  | naming fault .. => fault.code
  | untranslatable .. => .unknownNode
  | machine code _ => code
  | evaluation code _ => code
  | general code _ => code

/-- `detail`, unless it is empty: then what is known anyway. -/
def orElse (detail known : String) : String :=
  if detail = "" then known else detail

/-- The particulars in words. -/
def detail : Diagnostic → String
  | lexical _ detail => detail
  | unexpected expected found detail =>
    orElse detail ("expected " ++ expected ++ ", found " ++ found)
  | naming _ identifier detail => orElse detail identifier
  | untranslatable nodeKind detail => orElse detail nodeKind
  | machine _ detail => detail
  | evaluation _ detail => detail
  | general _ detail => detail

/-- The diagnostic in one text: its family, its kind, and the particulars if there are any. -/
def message (d : Diagnostic) : String :=
  d.family ++ ": " ++ d.code.text ++ if d.detail = "" then "" else ": " ++ d.detail

end Diagnostic

end LetPrint
