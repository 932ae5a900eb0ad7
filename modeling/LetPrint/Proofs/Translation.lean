import LetPrint.Pipeline

/-! The code of a program.

Every expression and every statement of the language has instructions, so the
translation of a program refuses nothing. `Expr.code`, `Stmt.code` and
`Program.code` are these instructions by recursion on the tree, and
`Program.generate_eq` says that the translation gives exactly them. -/
namespace LetPrint

/-- The instructions that leave the value of an expression on the stack. -/
def Expr.code : Expr → List Instr
  | literal value _ => [⟨.push, some (.immediate value)⟩]
  | var name _ => [⟨.push, some (.reference name.raw)⟩]
  | binary left op right _ => left.code ++ right.code ++ [⟨op.opcode, none⟩]

/-- The instructions of a statement: those of its expression, and one that uses the value. -/
def Stmt.code : Stmt → List Instr
  | letStmt name value _ => value.code ++ [⟨.store, some (.text name.raw)⟩]
  | printStmt value _ => value.code ++ [⟨.print, none⟩]

def Program.code (program : Program) : List Instr :=
  program.flatMap Stmt.code

namespace Program

theorem code_nil : code [] = [] :=
  rfl

theorem code_cons (s : Stmt) (rest : Program) : code (s :: rest) = s.code ++ code rest :=
  rfl

theorem code_append (first second : Program) : code (first ++ second) = first.code ++ second.code :=
  List.flatMap_append

end Program

theorem Emission.emit_append (first second : List Instr) :
    Emission.emit first ++ Emission.emit second = .emit (first ++ second) := rfl

theorem Expr.emission_eq (e : Expr) : e.node.emission = .emit e.code := by
  induction e with
  | literal value span => rfl
  | var name span => rfl
  | binary left op right span ihl ihr =>
    rw [Expr.node, Node.emission, ihl, ihr]
    simp only [Emission.emit_append, Expr.code]

theorem Stmt.emission_eq (s : Stmt) : s.node.stmtEmission = .emit s.code := by
  cases s with
  | letStmt name value span =>
    rw [Stmt.node, Node.stmtEmission, Expr.emission_eq, Emission.emit_append, Stmt.code]
  | printStmt value span =>
    rw [Stmt.node, Node.stmtEmission, Expr.emission_eq, Emission.emit_append, Stmt.code]

theorem Program.emission_eq (program : Program) :
    emissionOf program.nodes = .emit program.code := by
  induction program with
  | nil => rfl
  | cons s rest ih =>
    show s.node.stmtEmission ++ emissionOf (nodes rest) = _
    rw [ih, Stmt.emission_eq, Emission.emit_append]
    rfl

/-- The translation of a program refuses nothing and gives its code. -/
theorem Program.generate_eq (program : Program) : program.generate = .ok program.code := by
  rw [Program.generate, LetPrint.generate, Program.emission_eq]
  rfl

/-- To compile a text is to read it and to take the code of the program. -/
theorem compileText_eq_ok {text : String} {code : List Instr} :
    compileText text = .ok code ↔
      ∃ program, readProgram text = .ok program ∧ program.code = code := by
  rw [compileText]
  cases readProgram text with
  | error failure => simp [bind, Except.bind]
  | ok program => simp [bind, Except.bind, Program.generate_eq]

end LetPrint
