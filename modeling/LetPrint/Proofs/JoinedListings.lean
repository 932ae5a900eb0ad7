import LetPrint.Code.Listing
import LetPrint.Proofs.ListingLines

/-! Listings one after the other.

A line feed between two texts ends a line of the first text, whatever that text ends with: after a
carriage return it belongs to the same line end, and after any other line end it closes one more,
empty line. So the lines of the joined text are those of the first text, perhaps an empty one, and
those of the second (`exists_seam`). Reading takes the lines in turn, passes over empty ones, and
stops at the first line that is no instruction (`readLines_eq_error_iff`). Together: the joined
text is read as the first text and then the second, with the lines of the second counted on
(`read_append_feed`). -/
namespace LetPrint

/-! ### The lines of a joined text -/

namespace Text

theorem brokenLines_return_feed (rest : List Char) :
    brokenLines ('\r' :: '\n' :: rest) = [] :: brokenLines rest := by
  rw [brokenLines]

/-- A line end closes an empty line, unless it is only the first half of one. -/
theorem brokenLines_end {c : Char} (hc : isLineEnd c = true) {rest : List Char}
    (h : c = '\r' → rest.head? ≠ some '\n') : brokenLines (c :: rest) = [] :: brokenLines rest := by
  rw [brokenLines.eq_def]
  split
  · next heq => cases heq
  · next heq =>
    cases heq
    exact absurd rfl (h rfl)
  · next heq =>
    cases heq
    exact if_pos hc

theorem brokenLines_ne_nil (c : Char) (rest : List Char) : brokenLines (c :: rest) ≠ [] := by
  rw [brokenLines.eq_def]
  split
  · next heq => cases heq
  · exact List.cons_ne_nil _ _
  · split
    · exact List.cons_ne_nil _ _
    · split <;> exact List.cons_ne_nil _ _

/-- What a line feed after a text adds to its lines: nothing if it ends its last line, and
otherwise an empty line. -/
def Seam (lines : List (List Char)) : Prop :=
  lines = [] ∨ lines = [[]]

/-- **A line feed parts the lines of a text**: those before it, with the line that it adds, and
those after it. -/
theorem exists_seam (front : List Char) :
    ∃ seam, Seam seam ∧ ∀ back,
      brokenLines (front ++ '\n' :: back) = brokenLines front ++ (seam ++ brokenLines back) := by
  induction front using brokenLines.induct with
  | case1 => exact ⟨[[]], .inr rfl, brokenLines_feed⟩
  | case2 rest ih =>
    obtain ⟨seam, hseam, hlines⟩ := ih
    refine ⟨seam, hseam, fun back => ?_⟩
    show brokenLines ('\r' :: '\n' :: (rest ++ '\n' :: back)) = _
    rw [brokenLines_return_feed, brokenLines_return_feed, hlines]
    rfl
  | case3 c rest hwhole hc ih =>
    by_cases hreturn : c = '\r' ∧ rest = []
    · -- The line feed belongs to the carriage return before it.
      obtain ⟨rfl, rfl⟩ := hreturn
      exact ⟨[], .inl rfl, brokenLines_return_feed⟩
    · obtain ⟨seam, hseam, hlines⟩ := ih
      have hrest : c = '\r' → rest.head? ≠ some '\n' := by
        rintro rfl hhead
        obtain ⟨others, rfl⟩ := List.head?_eq_some_iff.1 hhead
        exact hwhole others rfl rfl
      have hjoined : ∀ back, c = '\r' → (rest ++ '\n' :: back).head? ≠ some '\n' := by
        intro back heq
        cases rest with
        | nil => exact absurd ⟨heq, rfl⟩ hreturn
        | cons next others => exact hrest heq
      refine ⟨seam, hseam, fun back => ?_⟩
      rw [List.cons_append, brokenLines_end hc (hjoined back), brokenLines_end hc hrest, hlines]
      rfl
  | case4 c rest _ hc hnone ih =>
    rw [Bool.not_eq_true] at hc
    cases rest with
    | nil =>
      refine ⟨[], .inl rfl, fun back => ?_⟩
      show brokenLines (c :: '\n' :: back) = _
      rw [brokenLines_cons hc, brokenLines_cons hc, brokenLines_feed]
      rfl
    | cons next others => exact absurd hnone (brokenLines_ne_nil next others)
  | case5 c rest _ hc line lines hfound ih =>
    rw [Bool.not_eq_true] at hc
    obtain ⟨seam, hseam, hlines⟩ := ih
    refine ⟨seam, hseam, fun back => ?_⟩
    rw [List.cons_append, brokenLines_cons hc, brokenLines_cons hc, hlines, hfound]
    rfl

end Text

/-! ### Reading line by line -/

namespace Listing
open Text

/-- The same fault so many lines further on. -/
def Fault.later (f : Fault) (count : Nat) : Fault :=
  {f with line := f.line + count}

namespace LineFault

/-- The kind of error that a fault is reported as. -/
def code : LineFault → ErrorCode
  | unknownMnemonic _ => .unknownInstruction
  | argumentCount _ _ => .malformedInstruction

/-- What a report says of a fault, apart from its line. -/
def detail : LineFault → String
  | unknownMnemonic word => word
  | argumentCount op count =>
    op.mnemonic ++ " takes " ++ Decimal.write (arity op) ++ " argument(s), got " ++
      Decimal.write count

end LineFault

/-- A fault is reported with the number of its line in front. -/
theorem Fault.diagnostic_eq (f : Fault) :
    f.diagnostic =
      .machine f.fault.code ("line " ++ Decimal.write f.line ++ ": " ++ f.fault.detail) := by
  obtain ⟨line, fault⟩ := f
  cases fault <;>
    simp only [Fault.diagnostic, LineFault.code, LineFault.detail, String.append_assoc]

/-- Lines are read one after the other: what comes after a line that is no instruction is not
read. -/
theorem readLines_append (number : Nat) (front back : List (List Char)) :
    readLines number (front ++ back) = (readLines number front).bind fun code =>
      (readLines (number + front.length) back).map (code ++ ·) := by
  induction front generalizing number with
  | nil =>
    show readLines number back = (readLines number back).map ([] ++ ·)
    cases readLines number back <;> rfl
  | cons line front ih =>
    have hlength : number + (line :: front).length = number + 1 + front.length := by
      rw [List.length_cons]
      omega
    rw [List.cons_append, readLines, readLines, hlength, ih]
    cases readLine line with
    | error fault => rfl
    | ok instr =>
      cases readLines (number + 1) front with
      | error fault => rfl
      | ok code =>
        show Except.map _ (Except.map _ _) = Except.map _ _
        cases readLines (number + 1 + front.length) back with
        | error fault => rfl
        | ok more => simp only [Except.map, List.append_assoc]

/-- The number of the first line only counts in what is reported. -/
theorem readLines_add (number count : Nat) (lines : List (List Char)) :
    readLines (number + count) lines = (readLines number lines).mapError (·.later count) := by
  induction lines generalizing number with
  | nil => rfl
  | cons line lines ih =>
    have hnext : number + count + 1 = number + 1 + count := by omega
    rw [readLines, readLines, hnext, ih]
    cases readLine line with
    | error fault => rfl
    | ok instr => cases readLines (number + 1) lines <;> rfl

/-- An empty line is no instruction, and no fault either. -/
theorem readLines_seam {seam : List (List Char)} (h : Seam seam) (number : Nat) :
    readLines number seam = .ok [] := by
  rcases h with rfl | rfl <;> rfl

theorem exists_readLines {lines : List (List Char)}
    (h : ∀ line ∈ lines, ∃ instr, readLine line = .ok instr) (number : Nat) :
    ∃ code, readLines number lines = .ok code := by
  induction lines generalizing number with
  | nil => exact ⟨[], rfl⟩
  | cons line lines ih =>
    obtain ⟨⟨instr, hline⟩, hlines⟩ := List.forall_mem_cons.1 h
    obtain ⟨code, hcode⟩ := ih hlines (number + 1)
    refine ⟨instr.toList ++ code, ?_⟩
    rw [readLines, hline]
    dsimp only
    rw [hcode]
    rfl

/-- **What is reported is the first line that is no instruction.** -/
theorem readLines_eq_error_iff {number : Nat} {lines : List (List Char)} {fault : Fault} :
    readLines number lines = .error fault ↔ ∃ before line after, lines = before ++ line :: after ∧
      fault.line = number + before.length ∧ readLine line = .error fault.fault ∧
      ∀ earlier ∈ before, ∃ instr, readLine earlier = .ok instr := by
  constructor
  · intro h
    induction lines generalizing number with
    | nil => cases h
    | cons first lines ih =>
      rw [readLines] at h
      cases hfirst : readLine first with
      | error found =>
        rw [hfirst] at h
        cases h
        exact ⟨[], first, lines, rfl, rfl, hfirst, nofun⟩
      | ok instr =>
        rw [hfirst] at h
        have hlater : readLines (number + 1) lines = .error fault := by
          cases hrest : readLines (number + 1) lines with
          | error found => simpa [hrest, Except.map] using h
          | ok code => simp [hrest, Except.map] at h
        obtain ⟨before, line, after, rfl, hnumber, hline, hbefore⟩ := ih hlater
        refine ⟨first :: before, line, after, rfl, ?_, hline, ?_⟩
        · rw [hnumber, List.length_cons]
          omega
        · exact List.forall_mem_cons.2 ⟨⟨instr, hfirst⟩, hbefore⟩
  · rintro ⟨before, line, after, rfl, hnumber, hline, hbefore⟩
    obtain ⟨code, hcode⟩ := exists_readLines hbefore number
    rw [readLines_append, hcode, ← hnumber]
    show (readLines fault.line (line :: after)).map _ = _
    rw [readLines, hline]
    rfl

/-- **A joined text is read as its first part and then its second**, whose lines are counted on
from the lines of the first. -/
theorem read_append_feed (a b : String) :
    read (a ++ "\n" ++ b) = (read a).bind fun code =>
      ((read b).mapError (·.later (brokenLines (a ++ "\n").toList).length)).map (code ++ ·) := by
  obtain ⟨seam, hseam, hlines⟩ := exists_seam a.toList
  have hfront : brokenLines (a ++ "\n").toList = brokenLines a.toList ++ seam := by
    rw [String.toList_append]
    have hend := hlines []
    rw [show brokenLines [] = [] from rfl, List.append_nil] at hend
    exact hend
  have hjoined : brokenLines (a ++ "\n" ++ b).toList =
      brokenLines (a ++ "\n").toList ++ brokenLines b.toList := by
    rw [hfront, String.toList_append, String.toList_append, List.append_assoc, List.append_assoc]
    exact hlines b.toList
  have hread : readLines 1 (brokenLines (a ++ "\n").toList) = read a := by
    rw [hfront, readLines_append, readLines_seam hseam]
    show (read a).bind _ = _
    cases read a <;> simp [Except.bind, Except.map]
  rw [read, hjoined, readLines_append, hread, readLines_add]
  rfl

/-- **Listings can be read one after the other.** If the first of two texts has a fault, then so
has the text that joins them, in the same line. Otherwise it holds the instructions of both, or
the fault of the second, with the lines of the first and of the line feed counted in. A fault is
always that of the first line which is no instruction, and its report tells the number of that
line and then what is wrong with it. -/
theorem read_joined (a b : String) :
    (∀ fault, read a = .error fault → read (a ++ "\n" ++ b) = .error fault) ∧
    (∀ code more, read a = .ok code → read b = .ok more →
      read (a ++ "\n" ++ b) = .ok (code ++ more)) ∧
    (∀ code fault, read a = .ok code → read b = .error fault →
      read (a ++ "\n" ++ b) =
        .error ⟨fault.line + (brokenLines (a ++ "\n").toList).length, fault.fault⟩) ∧
    (∀ text fault, read text = .error fault ↔
      ∃ before line after, brokenLines text.toList = before ++ line :: after ∧
        fault.line = before.length + 1 ∧ readLine line = .error fault.fault ∧
        ∀ earlier ∈ before, ∃ instr, readLine earlier = .ok instr) ∧
    ∀ fault : Fault, fault.diagnostic = .machine fault.fault.code
      ("line " ++ Decimal.write fault.line ++ ": " ++ fault.fault.detail) := by
  refine ⟨fun fault ha => ?_, fun code more ha hb => ?_, fun code fault ha hb => ?_,
    fun text fault => ?_, Fault.diagnostic_eq⟩
  · rw [read_append_feed, ha]
    rfl
  · rw [read_append_feed, ha, hb]
    rfl
  · rw [read_append_feed, ha, hb]
    rfl
  · simp only [read, readLines_eq_error_iff, Nat.add_comm 1]

/-- A carriage return takes in the line feed after it, a line feed does not. -/
theorem read_joined_seams :
    read ("ADD\r" ++ "\n" ++ "\nPUSH") = .error ⟨3, .argumentCount .push 0⟩ ∧
      read ("ADD\n" ++ "\n" ++ "\nPUSH") = .error ⟨4, .argumentCount .push 0⟩ ∧
      read ("ADD\r" ++ "\n" ++ "MUL") = .ok [⟨.add, none⟩, ⟨.mul, none⟩] ∧
      read ("ADD\x0bHALT" ++ "\n" ++ "\nPUSH") = .error ⟨2, .unknownMnemonic "HALT"⟩ := by
  have hadd : read "ADD\r" = .ok [⟨.add, none⟩] := rfl
  have hfed : read "ADD\n" = .ok [⟨.add, none⟩] := rfl
  have hmul : read "MUL" = .ok [⟨.mul, none⟩] := rfl
  have hpush : read "\nPUSH" = .error ⟨2, .argumentCount .push 0⟩ := rfl
  have hhalt : read "ADD\x0bHALT" = .error ⟨2, .unknownMnemonic "HALT"⟩ := rfl
  refine ⟨?_, ?_, ?_, ?_⟩
  · exact (read_joined "ADD\r" "\nPUSH").2.2.1 _ _ hadd hpush
  · exact (read_joined "ADD\n" "\nPUSH").2.2.1 _ _ hfed hpush
  · exact (read_joined "ADD\r" "MUL").2.1 _ _ hadd hmul
  · exact (read_joined "ADD\x0bHALT" "\nPUSH").1 _ hhalt

end Listing

end LetPrint
