/-! The operators of the language.

Each takes two integers of any size. A quotient is rounded down, so that
`7 / 2` is 3 and `-7 / 2` is -4, and there is none by zero. -/
namespace LetPrint

inductive BinOp where
  | add
  | sub
  | mul
  | div
deriving DecidableEq, Repr

namespace BinOp

/-- The value of `left op right`; there is none for a division by zero. -/
def apply : BinOp → Int → Int → Option Int
  | add, left, right => some (left + right)
  | sub, left, right => some (left - right)
  | mul, left, right => some (left * right)
  | div, left, right => if right = 0 then none else some (left.fdiv right)

/-- How the operator is written in a program. -/
def symbol : BinOp → String
  | add => "+"
  | sub => "-"
  | mul => "*"
  | div => "/"

/-- The identifier of the operator. -/
def name : BinOp → String
  | add => "ADD"
  | sub => "SUB"
  | mul => "MUL"
  | div => "DIV"

def all : List BinOp :=
  [add, sub, mul, div]

def ofSymbol? (symbol : String) : Option BinOp :=
  all.find? fun op => op.symbol = symbol

def ofName? (name : String) : Option BinOp :=
  all.find? fun op => op.name = name

end BinOp

end LetPrint
