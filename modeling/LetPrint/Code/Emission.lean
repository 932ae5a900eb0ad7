import LetPrint.Diagnostic
import LetPrint.Syntax.Describe

/-! From trees to instructions.

An expression becomes instructions that leave its value on the stack: operands
first, left before right, then the operation. A let statement stores the value
under its name, a print statement prints it. A tree that is no program may have a
part with no instructions; what was emitted before that part is still known. -/
namespace LetPrint

/-- Instructions, and the kind of the part that has none, if there was one. -/
structure Emission where
  code : List Instr
  refused : Option String
deriving DecidableEq, Repr

namespace Emission

/-- Some instructions and no refusal. -/
def emit (code : List Instr) : Emission :=
  ⟨code, none⟩

/-- No instructions, because of a part of some kind. -/
def refuse (kind : String) : Emission :=
  ⟨[], some kind⟩

/-- One emission and then another. After a refusal nothing follows. -/
def append (first second : Emission) : Emission :=
  match first.refused with
  | none => ⟨first.code ++ second.code, second.refused⟩
  | some _ => first

instance : Append Emission := ⟨append⟩

/-- The diagnostic for a part that has no instructions. -/
def diagnostic (kind : String) : Diagnostic :=
  .untranslatable kind ""

/-- The instructions, unless a part was refused. -/
def result (e : Emission) : Except Diagnostic (List Instr) :=
  match e.refused with
  | none => .ok e.code
  | some kind => .error (diagnostic kind)

end Emission

namespace Node

/-- The instructions that leave the value of an expression on the stack. -/
def emission : Node → Emission
  | literal value _ => .emit [⟨.push, some (.immediate value)⟩]
  | var name _ => .emit [⟨.push, some (.reference name.raw)⟩]
  | binary left op right _ =>
    left.emission ++ right.emission ++ match op with
      | .known op => .emit [⟨op.opcode, none⟩]
      | .other text => .refuse ("Binary(" ++ text ++ ")")
  | node => .refuse node.kind

/-- The instructions of a statement. -/
def stmtEmission : Node → Emission
  | letStmt name value _ => value.emission ++ .emit [⟨.store, some (.text name.raw)⟩]
  | printStmt value _ => value.emission ++ .emit [⟨.print, none⟩]
  | node => .refuse node.kind

end Node

/-- The instructions of statements, one after the other. -/
def emissionOf (nodes : List Node) : Emission :=
  nodes.foldr (fun node later => node.stmtEmission ++ later) (.emit [])

/-- The instructions of statements, unless one of them has a part with none. -/
def generate (nodes : List Node) : Except Diagnostic (List Instr) :=
  (emissionOf nodes).result

end LetPrint
