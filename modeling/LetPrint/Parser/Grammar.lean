import LetPrint.Parser.State
import LetPrint.Syntax.Tree
import LetPrint.Text.Numeral

/-! From tokens to programs.

A program is any number of statements, and each kind of statement begins with a
keyword of its own:

    statement  := let name = expression ; | print ( expression ) ;
    expression := operand (operator operand)?
    operand    := number | name

A name must be declared before it is used, by a let statement, and only once. It
is declared as soon as its let statement names it, so that the initial value of
a variable may mention the variable itself. -/
namespace LetPrint.Parse

/-- A number, or a name that is declared. -/
def operand : Parse Expr := do
  let token ← consume [.number, .ident]
  if token.kind = .number then
    match Text.Numeral.read token.raw with
    | some value => return .literal value token.span
    | none => throw (.badNumeral token.raw)
  else if (← get).symbols.contains token.raw then
    return .var token token.span
  else throw (.undeclared token)

/-- An operator and its right operand, after the left one. -/
def operation (left : Expr) : Parse Expr := do
  let op ← consume [.operator]
  let right ← operand
  match BinOp.ofSymbol? op.raw with
  | some op => return .binary left op right ⟨left.span.start, right.span.stop⟩
  | none => throw (.badOperator op.raw)

/-- What a left operand is part of: an operation if an operator comes next. -/
def operation? (left : Expr) : Parse Expr := do
  if (← get).nextIs .operator then operation left else return left

/-- One operand, or two with an operator between them. A second operator is left
for whoever comes next. -/
def expr : Parse Expr := do
  let left ← operand
  operation? left

/-- The name of a let statement, which is declared at once. -/
def newName : Parse Token := do
  let name ← consume [.ident]
  match (← get).symbols.find? name.raw with
  | some first => throw (.redeclared name first)
  | none =>
    declare name
    note .declare name
    return name

def letStmt : Parse Stmt := do
  let first ← consume [.letWord]
  let name ← newName
  let _ ← consume [.equals]
  let value ← expr
  let last ← consume [.semicolon]
  return .letStmt name value ⟨first.span.start, last.span.stop⟩

def printStmt : Parse Stmt := do
  let first ← consume [.printWord]
  let _ ← consume [.openParen]
  let value ← expr
  let _ ← consume [.closeParen]
  let last ← consume [.semicolon]
  return .printStmt value ⟨first.span.start, last.span.stop⟩

/-- A statement: its first token says of which kind. -/
def stmt : Parse Stmt := do
  match (← get).peek with
  | none => throw .noStatement
  | some token =>
    note .statement token
    match token.kind with
    | .letWord => letStmt
    | .printWord => printStmt
    | _ => throw (.unexpected [.letWord, .printWord] (some token))

/-- Statements up to the end of the tokens, but no more than `limit`. -/
def stmts : (limit : Nat) → Parse Program
  | 0 => return []
  | limit + 1 => do
    if (← get).atEnd then return []
    else
      let first ← stmt
      let others ← stmts limit
      return first :: others

/-- Statements up to the end of the tokens. Every statement takes a token, so
there are no more of them than tokens are left. -/
def program : Parse Program := do
  stmts (← get).rest.length

end LetPrint.Parse

namespace LetPrint

/-- The program that a list of tokens is, or why it is none. -/
def parseTokens (tokens : List Token) : Except ParseFault Program :=
  match Parse.program (.ofTokens tokens) with
  | .ok program _ => .ok program
  | .error fault _ => .error fault

end LetPrint
