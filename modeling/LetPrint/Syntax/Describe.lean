import LetPrint.Syntax.Node

/-! Nodes in words.

A message about a node, and a log record of a statement, show the whole node with
the names of its parts. A value by itself is worded plainly (`worded`); as a part
of something else it is written so that its sort can be seen (`inspected`). -/
namespace LetPrint
open Text

def Span.phrase (s : Span) : Phrase :=
  ["Span(start=", s.start, ", end=", s.stop, ")"]

namespace BinOp

def worded (op : BinOp) : String :=
  "BinOp." ++ op.name

def inspected (op : BinOp) : String :=
  "<BinOp." ++ op.name ++ ": '" ++ op.symbol ++ "'>"

end BinOp

namespace Opcode

def inspected (op : Opcode) : Phrase :=
  ["<Op.", op.mnemonic, ": ", (op.number : Int), ">"]

end Opcode

namespace TokenKind

def worded (kind : TokenKind) : String :=
  "TokenType." ++ kind.name

def inspected (kind : TokenKind) : String :=
  "<TokenType." ++ kind.name ++ ": '" ++ kind.label ++ "'>"

end TokenKind

namespace Operator

def worded : Operator → String
  | known op => op.worded
  | other text => text

def inspected : Operator → String
  | known op => op.inspected
  | other text => quoted text

end Operator

namespace Atom

/-- The value as a part of something else. -/
def inspected : Atom → Phrase
  | absent => ["None"]
  | flag value => [if value then "True" else "False"]
  | integer value => [value]
  | real value => [value.write]
  | text value => [quoted value]
  | token value => [value.raw]
  | span value => value.phrase
  | immediate value => (Argument.immediate value).inspected
  | reference name => (Argument.reference name).inspected
  | instr value => value.phrase
  | binOp value => [value.inspected]
  | opcode value => value.inspected
  | tokenKind value => [value.inspected]

/-- The value by itself. -/
def worded : Atom → Phrase
  | text value => [value]
  | immediate value => [value]
  | reference name => [name]
  | binOp value => [value.worded]
  | opcode value => [(value.number : Int)]
  | tokenKind value => [value.worded]
  | value => value.inspected

end Atom

/-- Named parts between parentheses, after the kind that they are the parts of. -/
def recordPhrase (kind : String) (fields : List (String × Phrase)) : Phrase :=
  Phrase.text kind ++ Phrase.text "(" ++
    Phrase.joined ", " (fields.map fun (name, value) => Phrase.text name ++ Phrase.text "=" ++ value) ++ Phrase.text ")"

namespace Node

mutual

/-- The node as a part of something else. -/
def inspected : Node → Phrase
  | literal value span => recordPhrase "Literal" [("value", [value]), ("span", span.phrase)]
  | var name span => recordPhrase "Variable" [("name", [name.raw]), ("span", span.phrase)]
  | binary left op right span =>
    recordPhrase "Binary" [("left", left.inspected), ("op", [op.inspected]),
      ("right", right.inspected), ("span", span.phrase)]
  | letStmt name value span =>
    recordPhrase "LetStmt" [("name", [name.raw]), ("value", value.inspected),
      ("span", span.phrase)]
  | printStmt value span =>
    recordPhrase "PrintStmt" [("value", value.inspected), ("span", span.phrase)]
  | foreign kind span => recordPhrase kind [("span", span.phrase)]
  | list items => Phrase.text "[" ++ Phrase.joined ", " (inspectedItems items) ++ Phrase.text "]"
  | atom value => value.inspected

def inspectedItems : List Node → List Phrase
  | [] => []
  | item :: items => item.inspected :: inspectedItems items

end

/-- The node by itself. -/
def worded : Node → Phrase
  | atom value => value.worded
  | node => node.inspected

end Node

end LetPrint
