import LetPrint.Store
import LetPrint.Syntax.Describe

/-! Running a tree as it stands.

The evaluator executes statements in order, and works out the value of an
expression by working out its operands, left before right. It needs no
instructions, and it changes nothing but a store. A tree that is no program ends
the run where the evaluator meets the part that has no meaning. -/
namespace LetPrint

/-- Why a tree cannot be run further. -/
inductive EvalError where
  | unbound (name : String)
  | unknownOperator (text : String)
  | divisionByZero
  /-- A node that is no statement. -/
  | unknownStmt (node : Node)
  /-- A node that is no expression. -/
  | unknownExpr (node : Node)
  /-- The sink refuses a value. -/
  | refused (refusal : Refusal)

/-- An operation that changes a store and gives a result or an error. -/
abbrev Eval (α : Type) := EStateM EvalError Store α

namespace Node

/-- The value of an expression. -/
def value (bindings : Bindings Int) : Node → Except EvalError Int
  | literal value _ => .ok value
  | var name _ =>
    match bindings.find? name.raw with
    | some value => .ok value
    | none => .error (.unbound name.raw)
  | binary left op right _ => do
    let left ← left.value bindings
    let right ← right.value bindings
    match op with
    | .known op =>
      match op.apply left right with
      | some value => .ok value
      | none => .error .divisionByZero
    | .other text => .error (.unknownOperator text)
  | node => .error (.unknownExpr node)

end Node

namespace Eval

/-- The value of an expression in the store. -/
def evaluate (node : Node) : Eval Int := fun s =>
  match node.value s.bindings with
  | .ok value => .ok value s
  | .error error => .error error s

/-- Prints a value and delivers it. -/
def print (sink : Option Sink) (value : Int) : Eval Unit := fun s =>
  match Store.print sink value s with
  | .ok () s => .ok () s
  | .error refusal s => .error (.refused refusal) s

/-- Executes a statement. -/
def execute (sink : Option Sink) : Node → Eval Unit
  | .letStmt name value _ => do
    let value ← evaluate value
    modify fun s => s.bind name.raw value
  | .printStmt value _ => do
    let value ← evaluate value
    print sink value
  | node => throw (.unknownStmt node)

/-- Executes statements in order. -/
def executeAll (sink : Option Sink) : List Node → Eval Unit
  | [] => return ()
  | node :: nodes => do
    execute sink node
    executeAll sink nodes

/-- Executes statements in order. The result is everything printed so far. -/
def interpret (sink : Option Sink) (nodes : List Node) : Eval (Array Int) := do
  executeAll sink nodes
  return (← get).printed

/-- The statements that start when statements are executed in order. -/
def starts (sink : Option Sink) (s : Store) : List Node → List Node
  | [] => []
  | node :: nodes =>
    node :: match execute sink node s with
      | .ok () s => starts sink s nodes
      | .error _ _ => []

end Eval

namespace EvalError
open Text

/-- An evaluation diagnostic, if every integer in its particulars can be shown. -/
def reported (code : ErrorCode) (detail : Phrase) : Failure :=
  match detail.writeShort? with
  | some detail => .diagnostic (.evaluation code detail)
  | none => .integerTooLong

def failure : EvalError → Failure
  | unbound name => reported .undefinedVariable (Phrase.text name)
  | unknownOperator text => reported .unknownOperator (Phrase.text text)
  | divisionByZero => reported .divisionByZero (Phrase.text "right operand is 0")
  | unknownStmt node => reported .unknownNode (Phrase.text "unhandled stmt " ++ node.worded)
  | unknownExpr node => reported .unknownNode (Phrase.text "unhandled expr " ++ node.worded)
  | refused refusal => refusal.failure

end EvalError

end LetPrint
