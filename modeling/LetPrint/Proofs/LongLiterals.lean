import LetPrint.Proofs.Acceptance
import LetPrint.Proofs.Dumps
import LetPrint.Proofs.Wording

/-! Programs with one literal.

A literal may have any number of digits: the text that binds a name to it is read
(`readProgram_literal`) and runs. To draw it is another matter, for a drawing has room for
a limited number of digits (`runIn_literal`). The file of such a text has one byte for each
character (`textOf_ascii`). -/
namespace LetPrint
open Text

/-! ### Files of plain characters -/

/-- The bytes of characters that take up one byte each. -/
def asciiBytes (cs : List Char) : List UInt8 :=
  cs.map fun c => UInt8.ofNat c.toNat

namespace Text.Utf8

theorem first_ascii {c : Char} (h : c.toNat < 0x80) (bytes : List UInt8) :
    first (UInt8.ofNat c.toNat) bytes = .ok (c, bytes) := by
  have hbyte : (UInt8.ofNat c.toNat).toNat = c.toNat := by
    rw [UInt8.toNat_ofNat']
    omega
  rw [first, hbyte, if_pos h, Char.ofNat_toNat]

theorem decodeFrom_ascii {cs : List Char} (h : ∀ c ∈ cs, c.toNat < 0x80) (position : Nat) :
    decodeFrom position (asciiBytes cs) = .ok cs := by
  induction cs generalizing position with
  | nil =>
    rw [asciiBytes, List.map_nil, decodeFrom]
  | cons c cs ih =>
    have hfirst := first_ascii (h c (List.mem_cons_self ..)) (asciiBytes cs)
    have hcons : asciiBytes (c :: cs) = UInt8.ofNat c.toNat :: asciiBytes cs := rfl
    rw [hcons, decodeFrom]
    split
    · next heq =>
      rw [hfirst] at heq
      cases heq
    · next heq =>
      rw [hfirst] at heq
      cases heq
      rw [ih (fun d hd => h d (List.mem_cons_of_mem c hd))]
      rfl

end Text.Utf8

theorem unifyLineEnds_of_no_return {cs : List Char} (h : '\r' ∉ cs) : unifyLineEnds cs = cs := by
  induction cs with
  | nil => rfl
  | cons c cs ih =>
    rw [List.mem_cons, not_or] at h
    rw [unifyLineEnds.eq_def]
    split
    · next heq => cases heq
    · next heq =>
      cases heq
      exact absurd rfl h.left
    · next heq =>
      cases heq
      rw [if_neg (Ne.symm h.left), ih h.right]

theorem CommandLine.textOf_ascii {cs : List Char} (h : ∀ c ∈ cs, c.toNat < 0x80)
    (hreturn : '\r' ∉ cs) : textOf (asciiBytes cs) = .ok (String.ofList cs) := by
  rw [textOf, Utf8.decode, Utf8.decodeFrom_ascii h, Except.map, unifyLineEnds_of_no_return hreturn]

/-! ### Numbers of many digits -/

/-- Each zero at the end multiplies by ten. -/
theorem ofDigitChars_zeros (value count : Nat) :
    Nat.ofDigitChars 10 (List.replicate count '0') value = value * Nat.pow 10 count := by
  induction count generalizing value with
  | zero => exact (Nat.mul_one value).symm
  | succ count ih =>
    have hstep : Nat.ofDigitChars 10 (List.replicate (count + 1) '0') value =
        Nat.ofDigitChars 10 (List.replicate count '0') (10 * value) := by
      rw [List.replicate_succ, Nat.ofDigitChars_cons]
      rfl
    rw [hstep, ih, Nat.mul_comm 10, Nat.mul_assoc, Nat.mul_comm 10]
    rfl

/-! ### The text of a literal -/

/-- Binds a name to the literal of some digits. -/
def literalChars (digits : List Char) : List Char :=
  ['l', 'e', 't', ' ', 'x', ' ', '=', ' '] ++ digits ++ [';']

def literalTokens (digits : List Char) : List Token := [
  .placed .letWord 0 ['l', 'e', 't'], .placed .ident 4 ['x'], .placed .equals 6 ['='],
  .placed .number 8 digits, .placed .semicolon (8 + digits.length) [';']]

/-- The program, up to spans. -/
def literalProgram (digits : List Char) : Program := [
  .letStmt (.placed .ident 4 ['x'])
    (.literal (Nat.ofDigitChars 10 digits 0 : Nat) (Token.placed .number 8 digits).span)
    ⟨0, (Token.placed .semicolon (8 + digits.length) [';']).span.stop⟩]

section Literals
variable {digits : List Char} (h : IsDigits digits)
include h

theorem cut_literalChars : Cut 0 (literalChars digits) (literalTokens digits) := by
  have hchars : literalChars digits = ['l', 'e', 't'] ++ ' ' :: (['x'] ++ ' ' ::
      (['='] ++ ' ' :: (digits ++ ([';'] ++ [])))) := by
    rw [literalChars, List.append_nil]
    rfl
  rw [hchars]
  refine .token rfl (growsBy_of_head? rfl) (.blank rfl ?_)
  refine .token ⟨⟨'x', [], rfl, by decide, nofun⟩, by decide, by decide⟩ (growsBy_of_head? rfl)
    (.blank rfl ?_)
  refine .token rfl (growsBy_of_head? rfl) (.blank rfl ?_)
  refine .token h (growsBy_of_head? rfl) ?_
  exact .token rfl (fun c hc => nomatch hc) (.nil _)

/-- **A literal of any length is read.** -/
theorem readProgram_literal :
    readProgram (String.ofList (literalChars digits)) = .ok (literalProgram digits) := by
  have htokens : (Lexer.ofText (String.ofList (literalChars digits))).tokenize.2 =
      .ok (literalTokens digits) := by
    rw [tokenize_eq_ok_iff, String.toList_ofList]
    exact cut_literalChars h
  have hrun : Progress.start.run (literalTokens digits) = some ⟨[], ["x"]⟩ := rfl
  obtain ⟨program, hparse⟩ := accepted_of_run (spelled_of_tokenize htokens).fitting hrun
  obtain ⟨p, hprogram⟩ := parseTokens_eq_ok.1 hparse
  have htree := (Parse.program_ok hprogram).2 (spelled_of_tokenize htokens).fitting
  have hvalue : ExprOf [.placed .number 8 digits] (.literal (Nat.ofDigitChars 10 digits 0 : Nat)
      (Token.placed .number 8 digits).span) := by
    have hoperand := ExprOf.single (OperandOf.literal (t := .placed .number 8 digits) rfl)
    have hraw : (Token.placed .number 8 digits).raw.toList = digits := String.toList_ofList
    rw [hraw] at hoperand
    exact hoperand
  have hliteral : ProgramOf (literalTokens digits) (literalProgram digits) :=
    .cons (.letStmt rfl rfl rfl hvalue rfl) .nil
  rw [htree.unique hliteral] at hprogram
  exact readProgram_eq_ok.2 ⟨_, htokens, p, hprogram⟩

omit h in
theorem drawable_literalProgram :
    (literalProgram digits).Drawable ↔
      Decimal.fits (Nat.ofDigitChars 10 digits 0 : Nat) = true := by
  constructor
  · intro hdrawable
    exact hdrawable.right _ (List.mem_singleton_self _) _ (List.mem_singleton_self _)
  · intro hfits
    have hcount : Decimal.fits (1 : Nat) = true := fits_digit (by decide)
    exact ⟨hcount, List.forall_mem_singleton.2 (List.forall_mem_singleton.2 hfits)⟩

end Literals

namespace CommandLine

/-- A directory with one file, the text of a literal. -/
def literalDirectory (digits : List Char) : Directory :=
  ⟨[(["p.let".toList], asciiBytes (literalChars digits))], []⟩

section Commands
variable {digits : List Char} (h : IsDigits digits)
include h

theorem textOf_literalChars :
    textOf (asciiBytes (literalChars digits)) = .ok (String.ofList (literalChars digits)) := by
  have hchars : ∀ c ∈ literalChars digits, c.toNat < 0x80 ∧ c ≠ '\r' := by
    rw [literalChars, List.forall_mem_append, List.forall_mem_append]
    refine ⟨⟨by simp, fun c hc => ?_⟩, by simp⟩
    have hdigit := isDigit_iff.1 (h.2 c hc)
    refine ⟨by omega, fun hreturn => ?_⟩
    rw [hreturn] at hdigit
    exact absurd hdigit (by decide)
  exact textOf_ascii (fun c hc => (hchars c hc).left) fun hreturn => (hchars _ hreturn).right rfl

theorem runIn_literalDirectory {arguments : List String} {options : Options}
    (hcommand : readCommand arguments = .ok (options, "p.let")) :
    runIn (literalDirectory digits) arguments =
      options.onText "p.let" (String.ofList (literalChars digits)) := by
  have hpath : normalPath "p.let" = "p.let" := by decide
  have hread : (literalDirectory digits).read (normalPath "p.let") =
      .ok (asciiBytes (literalChars digits)) := by
    rw [hpath]
    rfl
  have hrun := runIn_eq_onText hcommand (by decide) hread (textOf_literalChars h)
  rw [hpath] at hrun
  exact hrun

/-- To bind a name prints nothing. -/
theorem onText_literal {options : Options} (hquiet : options.verbose = false) (path : String) :
    options.plain.onText path (String.ofList (literalChars digits)) = ⟨"", "", .ok 0⟩ := by
  have hplain : options.plain.verbose = false := hquiet
  have hrun : ∀ backend : Backend, (backend.run none (literalProgram digits)).result = .ok #[] := by
    intro backend
    cases backend <;> rfl
  rw [onText_plain hquiet, readProgram_literal h]
  dsimp only
  rw [runProgram_quiet hplain, hrun]
  rfl

/-- **A literal of any length runs**, but only one that is not too long is drawn. -/
theorem runIn_literal :
    runIn (literalDirectory digits) ["p.let"] = ⟨"", "", .ok 0⟩ ∧
      (runIn (literalDirectory digits) ["--ast", "p.let"]).ending =
        if Decimal.fits (Nat.ofDigitChars 10 digits 0 : Nat) then .ok 0
        else .error .integerTooLong := by
  have hplain : readCommand ["p.let"] = .ok (⟨some .vm, false, false, false, false⟩, "p.let") := by
    decide
  have hast : readCommand ["--ast", "p.let"] =
      .ok (⟨some .vm, false, true, false, false⟩, "p.let") := by
    decide
  have hquiet : (⟨some .vm, false, true, false, false⟩ : Options).verbose = false := rfl
  have hread := readProgram_literal h
  rw [runIn_literalDirectory h hplain, runIn_literalDirectory h hast]
  refine ⟨onText_literal h hquiet "p.let", ?_⟩
  by_cases hfits : Decimal.fits (Nat.ofDigitChars 10 digits 0 : Nat) = true
  · have hdrawable : ∀ program, readProgram (String.ofList (literalChars digits)) = .ok program →
        program.Drawable := by
      intro program hprogram
      rw [hread] at hprogram
      rw [← Except.ok.inj hprogram]
      exact drawable_literalProgram.2 hfits
    have hdumps : (⟨some .vm, false, true, false, false⟩ : Options).CanDump
        (String.ofList (literalChars digits)) := ⟨nofun, fun _ => hdrawable⟩
    rw [if_pos hfits, onText_of_canDump hquiet _ _ hdumps, onText_literal h hquiet]
    rfl
  · have hundrawable : ¬ (literalProgram digits).Drawable := fun hdrawable =>
      hfits (drawable_literalProgram.1 hdrawable)
    rw [if_neg hfits, onText_of_not_drawable hquiet _ _ rfl hread hundrawable nofun]

end Commands

/-- The digits of the least number that is too long to show. -/
def longDigits : List Char :=
  '1' :: List.replicate Decimal.digitLimit '0'

theorem isDigits_longDigits : IsDigits longDigits := by
  refine ⟨List.cons_ne_nil _ _, fun c hc => ?_⟩
  rcases List.mem_cons.1 hc with rfl | hc
  · decide
  · rw [List.eq_of_mem_replicate hc]
    decide

theorem not_fits_longDigits :
    ¬ Decimal.fits (Nat.ofDigitChars 10 longDigits 0 : Nat) = true := by
  have hpower : ∀ count,
      Nat.ofDigitChars 10 ('1' :: List.replicate count '0') 0 = Nat.pow 10 count := fun count =>
    (ofDigitChars_zeros 1 count).trans (Nat.one_mul _)
  have hvalue : Nat.ofDigitChars 10 longDigits 0 = Decimal.firstTooLong := by
    unfold longDigits Decimal.firstTooLong
    exact hpower Decimal.digitLimit
  rw [hvalue]
  exact not_fits_firstTooLong

theorem ast_changes_ending :
    runIn (literalDirectory longDigits) ["p.let"] = ⟨"", "", .ok 0⟩ ∧
      (runIn (literalDirectory longDigits) ["--ast", "p.let"]).ending = .error .integerTooLong := by
  obtain ⟨hplain, hast⟩ := runIn_literal isDigits_longDigits
  rw [if_neg not_fits_longDigits] at hast
  exact ⟨hplain, hast⟩

end CommandLine

end LetPrint
