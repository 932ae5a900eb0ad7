import LetPrint.Proofs.Scopes
import LetPrint.Syntax.Outline
import Mathlib.Data.List.Basic

/-! Which programs can be drawn.

A drawing holds integers of its own, the number of statements and their places, and those of
the program, its literals. The drawing fails for an integer that is too long, wherever it
stands, so a program can be drawn if none of its literals is too long, and if there are not
too many statements (`drawing?_of_drawable`); and otherwise it cannot
(`drawing?_of_not_drawable`). Names and operators have no part in that. -/
namespace LetPrint
open Text

/-! ### Descriptions without long integers -/

@[simp]
theorem Text.Piece.fits_verbatim (text : String) : (verbatim text).fits = true := rfl

@[simp]
theorem Text.Piece.fits_number (value : Int) : (number value).fits = Decimal.fits value := rfl

namespace Text.Phrase

/-- A description that holds no integer too long to show. -/
def Fits (p : Phrase) : Prop :=
  ∀ piece ∈ p, piece.fits = true

variable {p q : Phrase}

@[simp]
theorem fits_nil : Fits [] :=
  fun _ hpiece => absurd hpiece List.not_mem_nil

@[simp]
theorem fits_cons {piece : Piece} : Fits (piece :: p) ↔ piece.fits = true ∧ p.Fits :=
  List.forall_mem_cons

@[simp]
theorem fits_append : Fits (p ++ q) ↔ p.Fits ∧ q.Fits :=
  List.forall_mem_append

@[simp]
theorem fits_text (s : String) : (text s).Fits :=
  List.forall_mem_singleton.2 rfl

theorem fits_joined (between : String) (parts : List Phrase) :
    (joined between parts).Fits ↔ ∀ part ∈ parts, part.Fits := by
  induction parts with
  | nil => simp [joined]
  | cons first parts ih =>
    cases parts with
    | nil => simp [joined]
    | cons second parts =>
      rw [joined] at ih
      rw [joined, List.intercalate_cons_cons, fits_append, fits_append, ih, List.forall_mem_cons]
      simp

theorem writeShort?_of_fits (h : p.Fits) : p.writeShort? = some p.write :=
  if_pos (List.all_eq_true.2 h)

theorem writeShort?_of_not_fits (h : ¬ p.Fits) : p.writeShort? = none :=
  if_neg fun hall => h (List.all_eq_true.1 hall)

end Text.Phrase

/-! ### Rows of an outline -/

mutual

/-- An outline whose labels and names hold no integer too long to show. -/
def Outline.Fits : Outline → Prop
  | .leaf label => label.Fits
  | .branching label branches => label.Fits ∧ branches.Fits

def Branches.Fits : Branches → Prop
  | .nil => True
  | .cons name outline rest => name.Fits ∧ outline.Fits ∧ rest.Fits

end

/-- The lines of a drawing hold no integers. -/
@[simp]
theorem fits_branchMark (isLast : Bool) : (branchMark isLast).fits = true := by
  cases isLast <;> rfl

@[simp]
theorem fits_passingMark (isLast : Bool) : (passingMark isLast).fits = true := by
  cases isLast <;> rfl

/-- A piece in front of every row. -/
theorem fits_map_cons {mark : Piece} (h : mark.fits = true) (rows : List Phrase) :
    (∀ row ∈ rows.map (mark :: ·), Phrase.Fits row) ↔ ∀ row ∈ rows, row.Fits := by
  simp [h]

mutual

/-- **The rows fit exactly if the labels do.** -/
theorem Outline.fits_rows : (o : Outline) → ((∀ row ∈ o.rows, row.Fits) ↔ o.Fits)
  | .leaf label => by simp [Outline.rows, Outline.Fits]
  | .branching label branches => by
    rw [Outline.rows, Outline.Fits, List.forall_mem_cons, fits_map_cons rfl, branches.fits_rows]
    simp

theorem Branches.fits_rows : (b : Branches) → ((∀ row ∈ b.rows, row.Fits) ↔ b.Fits)
  | .nil => by simp [Branches.rows, Branches.Fits]
  | .cons name (.leaf label) rest => by
    rw [Branches.rows, Branches.Fits, Outline.Fits, List.forall_mem_cons, rest.fits_rows]
    simp [and_assoc]
  | .cons name (.branching label branches) rest => by
    have hpassed : (∀ row ∈ branches.rows.map fun row =>
        passingMark rest.isEmpty :: .verbatim "   " :: row, Phrase.Fits row) ↔ branches.Fits := by
      rw [← branches.fits_rows]
      simp
    rw [Branches.rows, Branches.Fits, Outline.Fits]
    simp only [List.cons_append, List.forall_mem_cons, List.forall_mem_append, hpassed,
      rest.fits_rows]
    simp [and_assoc]

end

/-! ### Programs -/

namespace Expr

/-- The integers that an expression mentions, from left to right. -/
def literals : Expr → List Int
  | literal value _ => [value]
  | var .. => []
  | binary left _ right _ => left.literals ++ right.literals

end Expr

/-- A program that can be drawn: no literal is too long, and the statements are so few that
their number is not too long either. -/
def Program.Drawable (program : Program) : Prop :=
  Decimal.fits program.length = true ∧
    ∀ s ∈ program, ∀ value ∈ s.value.literals, Decimal.fits value = true

/-- Spans as a command has them drawn: hidden. -/
def SpanView.hidden (source : Source) : SpanView :=
  ⟨false, some source⟩

/-- The drawing of a program with every integer in full. -/
def Program.drawing (program : Program) (source : Source) : String :=
  (Phrase.joined "\n" (Node.outlineRows (.hidden source) (.list program.nodes))).write

section Hidden
variable (source : Source)

theorem fits_nodeLabel (kind : String) (span : Span) :
    ((SpanView.hidden source).nodeLabel kind span).Fits := by
  simp [SpanView.hidden, SpanView.nodeLabel]

theorem branch_hidden (span : Span) : (SpanView.hidden source).branch span = .nil := rfl

theorem Token.fits_label (t : Token) : (t.label (.hidden source)).Fits := by
  simp [Token.label, SpanView.hidden]

theorem Expr.isSpan_node (e : Expr) : e.node.isSpan = false := by
  cases e <;> rfl

theorem Stmt.isSpan_node (s : Stmt) : s.node.isSpan = false := by
  cases s <;> rfl

theorem branch_of_not_span {part : Node} (h : part.isSpan = false) (view : SpanView) (name : Phrase)
    (outline : Outline) (rest : Branches) :
    Node.branch view name part outline rest = .cons name outline rest := by
  rw [Node.branch, h]
  rfl

theorem Expr.fits_outline (e : Expr) :
    (e.node.outline (.hidden source)).Fits ↔ ∀ value ∈ e.literals, Decimal.fits value = true := by
  induction e with
  | literal value span =>
    simp [node, Node.outline, Outline.Fits, Branches.Fits, fits_nodeLabel, branch_hidden, literals]
  | var name span =>
    simp [node, Node.outline, Outline.Fits, Branches.Fits, fits_nodeLabel, branch_hidden, literals,
      Token.fits_label]
  | binary left op right span ihl ihr =>
    rw [node, Node.outline, branch_of_not_span left.isSpan_node,
      branch_of_not_span right.isSpan_node, literals, List.forall_mem_append]
    simp [Outline.Fits, Branches.Fits, fits_nodeLabel, branch_hidden, Operator.label, ihl, ihr]

theorem Stmt.fits_outline (s : Stmt) :
    (s.node.outline (.hidden source)).Fits ↔
      ∀ value ∈ s.value.literals, Decimal.fits value = true := by
  cases s with
  | letStmt name e span =>
    rw [Stmt.node, Node.outline, branch_of_not_span e.isSpan_node, Stmt.value,
      ← e.fits_outline source]
    simp [Outline.Fits, Branches.Fits, fits_nodeLabel, branch_hidden, Token.fits_label]
  | printStmt e span =>
    rw [Stmt.node, Node.outline, branch_of_not_span e.isSpan_node, Stmt.value,
      ← e.fits_outline source]
    simp [Outline.Fits, Branches.Fits, fits_nodeLabel, branch_hidden]

/-- Smaller numbers fit where larger ones do. -/
theorem fits_of_le {m n : Nat} (hle : m ≤ n) (h : Decimal.fits n = true) :
    Decimal.fits m = true := by
  simp only [Decimal.fits, Int.natAbs_natCast, decide_eq_true_eq] at h ⊢
  omega

/-- The places of the statements are below their number. -/
theorem Program.fits_outlineItems (program : Program) (index : Nat)
    (h : Decimal.fits (index + program.length : Nat) = true) :
    (Node.outlineItems (.hidden source) index program.nodes).Fits ↔
      ∀ s ∈ program, ∀ value ∈ s.value.literals, Decimal.fits value = true := by
  induction program generalizing index with
  | nil => simp [Program.nodes, Node.outlineItems, Branches.Fits]
  | cons s others ih =>
    have hindex : Decimal.fits (index : Int) = true := fits_of_le (Nat.le_add_right ..) h
    have hplace : index + 1 + others.length = index + (s :: others).length := by
      rw [List.length_cons, Nat.add_assoc, Nat.add_comm 1]
    have hothers := ih (index + 1) (by rw [hplace]; exact h)
    rw [Program.nodes_cons, Node.outlineItems, branch_of_not_span s.isSpan_node, Branches.Fits,
      s.fits_outline source, hothers, List.forall_mem_cons]
    simp [hindex]

theorem Program.fits_rows_iff (program : Program) :
    (Phrase.joined "\n" (Node.outlineRows (.hidden source) (.list program.nodes))).Fits ↔
      program.Drawable := by
  have hlength : program.nodes.length = program.length := List.length_map _
  rw [Phrase.fits_joined, Node.outlineRows, Outline.fits_rows, Node.outline, Outline.Fits, hlength,
    Program.Drawable]
  constructor
  · rintro ⟨hlabel, hitems⟩
    have hfits : Decimal.fits program.length = true := by simpa using hlabel
    rw [← Nat.zero_add program.length] at hfits
    exact ⟨by simpa using hfits, (program.fits_outlineItems source 0 hfits).1 hitems⟩
  · rintro ⟨hfits, hliterals⟩
    rw [← Nat.zero_add program.length] at hfits
    refine ⟨by simpa using hfits, ?_⟩
    exact (program.fits_outlineItems source 0 hfits).2 hliterals

/-- **A drawable program is drawn** with all its integers. -/
theorem drawing?_of_drawable {program : Program} (h : program.Drawable) :
    Node.drawing? (.hidden source) (.list program.nodes) = some (program.drawing source) :=
  Phrase.writeShort?_of_fits ((program.fits_rows_iff source).2 h)

/-- **Any other program is not drawn.** -/
theorem drawing?_of_not_drawable {program : Program} (h : ¬ program.Drawable) :
    Node.drawing? (.hidden source) (.list program.nodes) = none :=
  Phrase.writeShort?_of_not_fits fun hfits => h ((program.fits_rows_iff source).1 hfits)

end Hidden

end LetPrint
