import LetPrint.Proofs.Drawing
import LetPrint.Source.Excerpt

/-! Which nodes can be put in words.

The words of a node show the node with all its parts, and among them the integers in it:
values, and the offsets of spans (`Node.integers`). A message has room for the words exactly if
each of these integers can be shown (`Node.fits_worded`); names, operators and the depth of the
node have no part in that. The same holds of an instruction and its argument
(`Instr.fits_phrase`). -/
namespace LetPrint
open Text

/-! ### Numbers that are short enough -/

theorem two_pow_lt_ten_pow {m n : Nat} (h : m < n) : Nat.pow 2 m < Nat.pow 10 n :=
  Nat.lt_of_le_of_lt (Nat.pow_le_pow_left (by decide) m) (Nat.pow_lt_pow_right (by decide) h)

theorem lt_firstTooLong {n : Nat} (h : n ≤ 2 * lengthLimit) : n < Decimal.firstTooLong := by
  have htwice : 2 * lengthLimit = Nat.pow 2 64 := rfl
  rw [htwice] at h
  unfold Decimal.firstTooLong
  exact Nat.lt_of_le_of_lt h (two_pow_lt_ten_pow (by decide))

/-- The length of a text is never too long to show, nor is twice that. -/
theorem fits_of_le_lengthLimit {n : Int} (h : n.natAbs ≤ 2 * lengthLimit) :
    Decimal.fits n = true :=
  decide_eq_true (lt_firstTooLong h)

/-- A number of one digit is not too long. -/
theorem fits_digit {n : Nat} (h : n < 10) : Decimal.fits (n : Int) = true := by
  have hten : 10 ≤ 2 * lengthLimit := by decide
  exact fits_of_le_lengthLimit (by omega)

theorem not_fits_firstTooLong : ¬ Decimal.fits (Decimal.firstTooLong : Int) = true := by
  rw [Decimal.fits, decide_eq_true_iff, Int.natAbs_natCast]
  exact Nat.lt_irrefl _

/-! ### Instructions -/

/-- The integers in an argument: an immediate value, and no other. -/
def Argument.integers : Argument → List Int
  | immediate value => [value]
  | _ => []

/-- The integers in an instruction. -/
def Instr.integers (i : Instr) : List Int :=
  i.arg.elim [] Argument.integers

theorem Opcode.fits_inspected (op : Opcode) : op.inspected.Fits := by
  have hnumber : Decimal.fits (op.number : Int) = true := fits_digit (by cases op <;> decide)
  simp [inspected, hnumber]

theorem Argument.fits_phrase (a : Argument) :
    a.phrase.Fits ↔ ∀ n ∈ a.integers, Decimal.fits n = true := by
  cases a <;> simp [phrase, integers]

theorem Argument.fits_inspected (a : Argument) :
    a.inspected.Fits ↔ ∀ n ∈ a.integers, Decimal.fits n = true := by
  cases a <;> simp [inspected, integers]

theorem Instr.fits_phrase (i : Instr) :
    i.phrase.Fits ↔ ∀ n ∈ i.integers, Decimal.fits n = true := by
  obtain ⟨op, arg⟩ := i
  cases arg with
  | none => simp [phrase, integers]
  | some a => simp [phrase, integers, a.fits_phrase]

/-! ### Values and nodes -/

/-- The integers in a span: its two offsets. -/
def Span.integers (s : Span) : List Int :=
  [s.start, s.stop]

theorem Span.fits_phrase (s : Span) :
    s.phrase.Fits ↔ ∀ n ∈ s.integers, Decimal.fits n = true := by
  simp [phrase, integers]

/-- The integers in a value that is no node of a program. -/
def Atom.integers : Atom → List Int
  | integer value => [value]
  | span value => value.integers
  | immediate value => [value]
  | instr value => value.integers
  | _ => []

theorem Atom.fits_inspected (a : Atom) :
    a.inspected.Fits ↔ ∀ n ∈ a.integers, Decimal.fits n = true := by
  cases a with
  | span value => exact value.fits_phrase
  | immediate value => exact (Argument.immediate value).fits_inspected
  | reference name => exact (Argument.reference name).fits_inspected
  | instr value => exact value.fits_phrase
  | opcode value => simp [inspected, integers, value.fits_inspected]
  | flag value => cases value <;> simp [inspected, integers]
  | _ => simp [inspected, integers]

theorem Atom.fits_worded (a : Atom) :
    a.worded.Fits ↔ ∀ n ∈ a.integers, Decimal.fits n = true := by
  rw [← a.fits_inspected]
  cases a with
  | opcode value =>
    have hnumber : Decimal.fits (value.number : Int) = true :=
      fits_digit (by cases value <;> decide)
    simp [worded, inspected, Opcode.inspected, hnumber]
  | text | immediate | reference | binOp | tokenKind =>
    simp [worded, inspected, Argument.inspected]
  | _ => exact Iff.rfl

/-- Named parts fit exactly if each part does. -/
theorem fits_recordPhrase (kind : String) (fields : List (String × Phrase)) :
    (recordPhrase kind fields).Fits ↔ ∀ field ∈ fields, field.2.Fits := by
  rw [recordPhrase, Phrase.fits_append, Phrase.fits_append, Phrase.fits_append,
    Phrase.fits_joined, List.forall_mem_map]
  simp

namespace Node

mutual

/-- The integers in a node, in the order in which its words show them. -/
def integers : Node → List Int
  | literal value span => value :: span.integers
  | var _ span => span.integers
  | binary left _ right span => left.integers ++ right.integers ++ span.integers
  | letStmt _ value span => value.integers ++ span.integers
  | printStmt value span => value.integers ++ span.integers
  | foreign _ span => span.integers
  | list items => itemIntegers items
  | atom value => value.integers

def itemIntegers : List Node → List Int
  | [] => []
  | item :: items => item.integers ++ itemIntegers items

end

mutual

theorem fits_inspected : (node : Node) →
    (node.inspected.Fits ↔ ∀ n ∈ node.integers, Decimal.fits n = true)
  | literal value span => by
    simp [inspected, integers, fits_recordPhrase, span.fits_phrase]
  | var name span => by
    simp [inspected, integers, fits_recordPhrase, span.fits_phrase]
  | binary left op right span => by
    rw [inspected, integers, fits_recordPhrase, List.forall_mem_append, List.forall_mem_append,
      ← left.fits_inspected, ← right.fits_inspected, ← span.fits_phrase]
    simp [and_assoc]
  | letStmt name value span => by
    rw [inspected, integers, fits_recordPhrase, List.forall_mem_append, ← value.fits_inspected,
      ← span.fits_phrase]
    simp
  | printStmt value span => by
    rw [inspected, integers, fits_recordPhrase, List.forall_mem_append, ← value.fits_inspected,
      ← span.fits_phrase]
    simp
  | foreign kind span => by
    simp [inspected, integers, fits_recordPhrase, span.fits_phrase]
  | list items => by
    rw [inspected, integers, Phrase.fits_append, Phrase.fits_append, Phrase.fits_joined,
      fits_inspectedItems items]
    simp
  | atom value => value.fits_inspected

theorem fits_inspectedItems : (items : List Node) →
    ((∀ part ∈ inspectedItems items, part.Fits) ↔
      ∀ n ∈ itemIntegers items, Decimal.fits n = true)
  | [] => by simp [inspectedItems, itemIntegers]
  | item :: items => by
    rw [inspectedItems, itemIntegers, List.forall_mem_cons, List.forall_mem_append,
      item.fits_inspected, fits_inspectedItems items]

end

/-- **The words of a node fit exactly if the integers in it do.** -/
theorem fits_worded (node : Node) :
    node.worded.Fits ↔ ∀ n ∈ node.integers, Decimal.fits n = true := by
  cases node with
  | atom value => exact value.fits_worded
  | _ => exact fits_inspected _

end Node

end LetPrint
