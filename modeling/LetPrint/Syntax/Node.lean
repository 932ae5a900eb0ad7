import LetPrint.Code.Instr
import LetPrint.Syntax.Tree
import LetPrint.Text.Binary64

/-! Trees of any shape.

Whoever builds a tree by hand can put anything anywhere: a statement inside an
expression, a list for an operand, an operator that does not exist, a kind of
node that the language does not know. `Node` holds all of these, so that the
stages after the parser can say what they refuse. A program is the special case
`Stmt.node`. -/
namespace LetPrint

/-- The operator of a binary node: one of the language, or some other text. -/
inductive Operator where
  | known (op : BinOp)
  | other (text : String)
deriving DecidableEq, Repr

/-- A value that is no node of a program. -/
inductive Atom where
  | absent
  | flag (value : Bool)
  | integer (value : Int)
  | real (value : Text.Binary64)
  | text (value : String)
  | token (value : Token)
  | span (value : Span)
  | immediate (value : Int)
  | reference (name : String)
  | instr (value : Instr)
  | binOp (value : BinOp)
  | opcode (value : Opcode)
  | tokenKind (value : TokenKind)
deriving DecidableEq, Repr

inductive Node where
  | literal (value : Int) (span : Span)
  | var (name : Token) (span : Span)
  | binary (left : Node) (op : Operator) (right : Node) (span : Span)
  | letStmt (name : Token) (value : Node) (span : Span)
  | printStmt (value : Node) (span : Span)
  /-- A node of a kind that the language does not know. -/
  | foreign (kind : String) (span : Span)
  | list (items : List Node)
  | atom (value : Atom)
deriving Repr

/-- An expression among all nodes. -/
def Expr.node : Expr → Node
  | literal value span => .literal value span
  | var name span => .var name span
  | binary left op right span => .binary left.node (.known op) right.node span

/-- A statement among all nodes. -/
def Stmt.node : Stmt → Node
  | letStmt name value span => .letStmt name value.node span
  | printStmt value span => .printStmt value.node span

namespace Atom

/-- What sort of value it is. -/
def kind : Atom → String
  | absent => "NoneType"
  | flag _ => "bool"
  | integer _ => "int"
  | real _ => "float"
  | text _ => "str"
  | token _ => "Token"
  | span _ => "Span"
  | immediate _ => "Immediate"
  | reference _ => "VariableRef"
  | instr _ => "Instr"
  | binOp _ => "BinOp"
  | opcode _ => "Op"
  | tokenKind _ => "TokenType"

end Atom

namespace Node

/-- What sort of node it is. -/
def kind : Node → String
  | literal .. => "Literal"
  | var .. => "Variable"
  | binary .. => "Binary"
  | letStmt .. => "LetStmt"
  | printStmt .. => "PrintStmt"
  | foreign kind _ => kind
  | list _ => "list"
  | atom value => value.kind

/-- The part of the source that a message about the node is about. An integer
stands for the one character at that offset. -/
def place? : Node → Option Span
  | literal _ span => some span
  | var _ span => some span
  | binary _ _ _ span => some span
  | letStmt _ _ span => some span
  | printStmt _ span => some span
  | foreign _ span => some span
  | list _ => none
  | atom (.flag value) => some ⟨value.toNat, value.toNat + 1⟩
  | atom (.integer value) => some ⟨value, value + 1⟩
  | atom (.opcode value) => some ⟨value.number, value.number + 1⟩
  | atom (.token value) => some value.span
  | atom (.span value) => some value
  | atom _ => none

end Node

end LetPrint
