import LetPrint.Syntax.BinOp
import LetPrint.Token.Basic

/-! Programs as trees.

A program is a list of statements over expressions. Every node carries the span
of the source text it was read from. -/
namespace LetPrint

inductive Expr where
  | literal (value : Int) (span : Span)
  | var (name : Token) (span : Span)
  | binary (left : Expr) (op : BinOp) (right : Expr) (span : Span)
deriving DecidableEq, Repr

inductive Stmt where
  /-- Gives a name the value of an expression. -/
  | letStmt (name : Token) (value : Expr) (span : Span)
  /-- Prints the value of an expression. -/
  | printStmt (value : Expr) (span : Span)
deriving DecidableEq, Repr

def Expr.span : Expr → Span
  | literal _ span => span
  | var _ span => span
  | binary _ _ _ span => span

def Stmt.span : Stmt → Span
  | letStmt _ _ span => span
  | printStmt _ span => span

/-- A program. -/
abbrev Program := List Stmt

end LetPrint
