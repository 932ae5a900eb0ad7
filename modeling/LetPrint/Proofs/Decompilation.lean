import LetPrint.Proofs.Positions

/-! Programs read back from their code.

Code says nothing about places, and about a name only how it is spelled. It loses nothing else.
It can be read the way the machine runs it, with a stack of expressions in place of their
values: an operation takes two expressions and leaves one, and a `store` or a `print` finishes
a statement. Read like this, the code of a program gives the program again, at no place
(`decompile_code`). So programs with the same code differ in places at most
(`code_determines_program`). -/
namespace LetPrint

/-! ### Programs at no place -/

/-- A name at no place. -/
def Token.ofName (name : String) : Token :=
  ⟨.ident, name, ⟨0, 0⟩⟩

namespace Expr

/-- The expression at no place. All that is left of a name is its spelling: a tree put together
by hand may hold it in a token of any kind. -/
def plain : Expr → Expr
  | literal value _ => .literal value ⟨0, 0⟩
  | var name _ => .var (.ofName name.raw) ⟨0, 0⟩
  | binary left op right _ => .binary left.plain op right.plain ⟨0, 0⟩

/-- The tokens that hold the names of an expression. -/
def nameTokens : Expr → List Token
  | literal .. => []
  | var name _ => [name]
  | binary left _ right _ => left.nameTokens ++ right.nameTokens

theorem code_plain (e : Expr) : e.plain.code = e.code := by
  induction e with
  | literal => rfl
  | var => rfl
  | binary left op right span ihl ihr => rw [plain, code, ihl, ihr, code]

theorem plain_eq_unplaced {e : Expr} (h : ∀ t ∈ e.nameTokens, t.kind = .ident) :
    e.plain = e.unplaced := by
  induction e with
  | literal => rfl
  | var name span =>
    have hname : name.kind = .ident := h name (List.mem_singleton_self name)
    rw [plain, unplaced, Token.ofName, Token.unplaced, hname]
  | binary left op right span ihl ihr =>
    obtain ⟨hleft, hright⟩ := List.forall_mem_append.1 h
    rw [plain, unplaced, ihl hleft, ihr hright]

end Expr

namespace Stmt

/-- The statement at no place, with the spellings of its names only. -/
def plain : Stmt → Stmt
  | letStmt name value _ => .letStmt (.ofName name.raw) value.plain ⟨0, 0⟩
  | printStmt value _ => .printStmt value.plain ⟨0, 0⟩

/-- The tokens that hold the names of a statement. -/
def nameTokens : Stmt → List Token
  | letStmt name value _ => name :: value.nameTokens
  | printStmt value _ => value.nameTokens

theorem code_plain (s : Stmt) : s.plain.code = s.code := by
  cases s with
  | letStmt name value span => rw [plain, code, value.code_plain]; rfl
  | printStmt value span => rw [plain, code, value.code_plain]; rfl

theorem plain_eq_unplaced {s : Stmt} (h : ∀ t ∈ s.nameTokens, t.kind = .ident) :
    s.plain = s.unplaced := by
  cases s with
  | letStmt name value span =>
    obtain ⟨hname, hvalue⟩ := List.forall_mem_cons.1 h
    rw [plain, unplaced, Expr.plain_eq_unplaced hvalue, Token.ofName, Token.unplaced, hname]
  | printStmt value span => rw [plain, unplaced, Expr.plain_eq_unplaced h]

end Stmt

namespace Program

/-- The program at no place, with the spellings of its names only. -/
def plain (program : Program) : Program :=
  program.map Stmt.plain

/-- The tokens that hold the names of a program. -/
def nameTokens (program : Program) : List Token :=
  program.flatMap Stmt.nameTokens

theorem code_plain (program : Program) : program.plain.code = program.code := by
  rw [code, plain, List.flatMap_map]
  simp only [Stmt.code_plain]
  rfl

/-- Where only names are taken for names, their places are all that is lost. -/
theorem plain_eq_unplaced {program : Program} (h : ∀ t ∈ program.nameTokens, t.kind = .ident) :
    program.plain = program.unplaced := by
  apply List.map_congr_left
  intro s hs
  exact Stmt.plain_eq_unplaced fun t ht => h t (List.mem_flatMap.2 ⟨s, hs, ht⟩)

end Program

/-! ### Reading code -/

/-- The operator that an operation computes, if it computes one. -/
def Opcode.operator? : Opcode → Option BinOp
  | add => some .add
  | sub => some .sub
  | mul => some .mul
  | div => some .div
  | _ => none

/-- What is known of a program after some of its code: the finished statements, and the
expressions whose values are on the stack, the top one first. -/
structure Recovery where
  finished : Program
  stack : List Expr

namespace Recovery

/-- One instruction further, if it can come next in the code of a program. -/
def read? (r : Recovery) (i : Instr) : Option Recovery :=
  match i, r.stack with
  | ⟨.push, some (.immediate value)⟩, stack =>
    some {r with stack := .literal value ⟨0, 0⟩ :: stack}
  | ⟨.push, some (.reference name)⟩, stack =>
    some {r with stack := .var (.ofName name) ⟨0, 0⟩ :: stack}
  | ⟨.store, some (.text name)⟩, [value] =>
    some ⟨r.finished ++ [.letStmt (.ofName name) value ⟨0, 0⟩], []⟩
  | ⟨.print, none⟩, [value] => some ⟨r.finished ++ [.printStmt value ⟨0, 0⟩], []⟩
  | ⟨op, none⟩, right :: left :: stack =>
    op.operator?.map fun op => {r with stack := .binary left op right ⟨0, 0⟩ :: stack}
  | _, _ => none

end Recovery

/-- The program that some code is the code of. -/
def decompile (code : List Instr) : Option Program :=
  match code.foldlM Recovery.read? ⟨[], []⟩ with
  | some ⟨program, []⟩ => some program
  | _ => none

namespace Recovery
variable (finished : Program) (stack : List Expr)

theorem read?_operation (left right : Expr) (op : BinOp) :
    read? ⟨finished, right :: left :: stack⟩ ⟨op.opcode, none⟩ =
      some ⟨finished, .binary left op right ⟨0, 0⟩ :: stack⟩ := by
  cases op <;> rfl

/-- The code of an expression puts the expression on the stack, whatever is there already. -/
theorem read_expr (e : Expr) :
    e.code.foldlM read? ⟨finished, stack⟩ = some ⟨finished, e.plain :: stack⟩ := by
  induction e generalizing stack with
  | literal => rfl
  | var => rfl
  | binary left op right span ihl ihr =>
    rw [Expr.code, List.foldlM_append, List.foldlM_append, ihl]
    show (right.code.foldlM read? ⟨finished, left.plain :: stack⟩ >>= fun r =>
      [⟨op.opcode, none⟩].foldlM read? r) = _
    rw [ihr]
    show (read? ⟨finished, right.plain :: left.plain :: stack⟩ ⟨op.opcode, none⟩ >>= pure) = _
    rw [read?_operation]
    rfl

/-- The code of a statement finishes it and leaves nothing on the stack. -/
theorem read_stmt (s : Stmt) :
    s.code.foldlM read? ⟨finished, []⟩ = some ⟨finished ++ [s.plain], []⟩ := by
  cases s with
  | letStmt name value span =>
    rw [Stmt.code, List.foldlM_append, read_expr]
    rfl
  | printStmt value span =>
    rw [Stmt.code, List.foldlM_append, read_expr]
    rfl

theorem read_program (program : Program) :
    program.code.foldlM read? ⟨finished, []⟩ = some ⟨finished ++ program.plain, []⟩ := by
  induction program generalizing finished with
  | nil =>
    rw [Program.plain, List.map_nil, List.append_nil]
    rfl
  | cons s rest ih =>
    rw [Program.code_cons, List.foldlM_append, read_stmt]
    show (Program.code rest).foldlM read? ⟨finished ++ [s.plain], []⟩ = _
    rw [ih, List.append_assoc]
    rfl

end Recovery

/-- **A program is read back from its code**, at no place. -/
theorem decompile_code (program : Program) : decompile program.code = some program.plain := by
  rw [decompile, Recovery.read_program, List.nil_append]

theorem code_eq_iff {p q : Program} : p.code = q.code ↔ p.plain = q.plain := by
  constructor
  · intro h
    rw [← Option.some.injEq, ← decompile_code, h, decompile_code]
  · intro h
    rw [← p.code_plain, h, q.code_plain]

theorem generate_nodes_eq (program : Program) : generate program.nodes = .ok program.code := by
  rw [generate, Program.emission_eq]
  rfl

/-- **Code loses nothing but places.** Every program has code, and it is read back from it. Two
programs have the same code exactly if they have the same statements, with the same names,
numbers, operators and shapes of expressions. If their names are held by name tokens, as they
are after parsing, they are then equal but for places. -/
theorem code_determines_program (p q : Program) :
    (∃ code, generate p.nodes = .ok code ∧ decompile code = some p.plain) ∧
      (generate p.nodes = generate q.nodes ↔ p.plain = q.plain) ∧
      ((∀ t ∈ p.nameTokens ++ q.nameTokens, t.kind = .ident) →
        (generate p.nodes = generate q.nodes ↔ p.unplaced = q.unplaced)) := by
  have hcode : generate p.nodes = generate q.nodes ↔ p.plain = q.plain := by
    rw [generate_nodes_eq, generate_nodes_eq, Except.ok.injEq, code_eq_iff]
  refine ⟨⟨p.code, generate_nodes_eq p, decompile_code p⟩, hcode, fun hnames => ?_⟩
  obtain ⟨hp, hq⟩ := List.forall_mem_append.1 hnames
  rw [hcode, Program.plain_eq_unplaced hp, Program.plain_eq_unplaced hq]

/-- The statement `print((a - b) - c);`, its parts somewhere. -/
def leftNested : Program := [
  .printStmt (.binary (.binary (.var ⟨.ident, "a", ⟨6, 7⟩⟩ ⟨6, 7⟩) .sub
    (.var ⟨.ident, "b", ⟨10, 11⟩⟩ ⟨10, 11⟩) ⟨6, 11⟩) .sub
    (.var ⟨.ident, "c", ⟨14, 15⟩⟩ ⟨14, 15⟩) ⟨6, 15⟩) ⟨0, 17⟩]

/-- The statement `print(a - (b - c));`, with the same names and operators in a row. -/
def rightNested : Program := [
  .printStmt (.binary (.var ⟨.ident, "a", ⟨6, 7⟩⟩ ⟨6, 7⟩) .sub
    (.binary (.var ⟨.ident, "b", ⟨10, 11⟩⟩ ⟨10, 11⟩) .sub
      (.var ⟨.ident, "c", ⟨14, 15⟩⟩ ⟨14, 15⟩) ⟨10, 15⟩) ⟨6, 15⟩) ⟨0, 17⟩]

theorem code_determines_program_nested :
    (∀ t ∈ leftNested.nameTokens ++ rightNested.nameTokens, t.kind = .ident) ∧
      generate leftNested.nodes ≠ generate rightNested.nodes := by
  have hnames : ∀ t ∈ leftNested.nameTokens ++ rightNested.nameTokens, t.kind = .ident := by decide
  refine ⟨hnames, fun h => ?_⟩
  obtain ⟨_, _, hplaces⟩ := code_determines_program leftNested rightNested
  exact absurd ((hplaces hnames).1 h) (by decide)

end LetPrint
