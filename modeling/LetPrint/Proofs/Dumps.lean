import LetPrint.CommandLine.Run
import LetPrint.Proofs.Drawing
import LetPrint.Proofs.Safety
import LetPrint.Proofs.TokenMarks
import LetPrint.Proofs.Wording

/-! What dumps add to a command.

A command without dumps ends with an exit code, whatever its file says
(`plain_ends`). With dumps it does the same, and writes those that it gets to in front
(`onText_of_canDump`), unless there is an integer too long to show in a dump that is asked
for: the command ends there with a failure that has no exit code. In the drawing of the
program that can be a literal (`onText_of_not_drawable`). In the dump of the tokens it can
only be an offset of a text whose own length is too long to show
(`onText_of_not_dumpFits`). -/
namespace LetPrint.CommandLine

/-! ### Outcomes one after the other -/

namespace Outcome

theorem after_empty (o : Outcome) : o.after "" "" = o := by
  simp [after]

theorem after_after (o : Outcome) (stdout stderr stdout' stderr' : String) :
    (o.after stdout stderr).after stdout' stderr' =
      o.after (stdout' ++ stdout) (stderr' ++ stderr) := by
  simp [after, String.append_assoc]

end Outcome

namespace Options

/-- The same options without any dump. -/
def plain (options : Options) : Options :=
  {options with tokens := false, ast := false, bytecode := false}

/-- The dump of the tokens of a text. -/
def tokenDump (options : Options) (text : String) : String :=
  dumped options.tokens ((Lexer.ofText text).tokenize.1.gutterDump ++ "\n")

/-- Every dump that is asked for and that a command gets to can be made. -/
structure CanDump (options : Options) (text : String) : Prop where
  tokens : options.tokens = true → ∀ tokens, (Lexer.ofText text).tokenize.2 = .ok tokens →
    (Lexer.ofText text).tokenize.1.DumpFits
  drawing : options.ast = true → ∀ program, readProgram text = .ok program → program.Drawable

/-- The drawing of a program of a text. -/
def drawingDump (options : Options) (text : String) (program : Program) : String :=
  dumped options.ast (program.drawing (Lexer.ofText text).tokenize.1.source ++ "\n")

/-- The listing of a program. -/
def listingDump (options : Options) (program : Program) : String :=
  dumped options.bytecode (Listing.write program.code)

/-- The dumps that a command gets to on a text: none if the text has no tokens, the tokens
alone if these are no program, and otherwise all. -/
def reachedDumps (options : Options) (text : String) : String :=
  match (Lexer.ofText text).tokenize.2 with
  | .error _ => ""
  | .ok _ =>
    options.tokenDump text ++
      match readProgram text with
      | .error _ => ""
      | .ok program => options.drawingDump text program ++ options.listingDump program

end Options

/-! ### Running without a log -/

section Quiet
variable {options : Options} (hquiet : options.verbose = false) (path : String)
include hquiet

theorem logText_quiet (records : List Record) : options.logText records = "" := by
  rw [Options.logText, hquiet]
  rfl

theorem after_logText (o : Outcome) (records : List Record) :
    o.after "" (options.logText records) = o := by
  rw [logText_quiet hquiet, Outcome.after_empty]

/-- A run writes its values or the message of its failure. -/
theorem runProgram_quiet (program : Program) :
    options.runProgram path program =
      match ((options.backend.getD .tree).run none program).result with
      | .ok values => ⟨valueLines values, "", .ok 0⟩
      | .error failure => .failed failure := by
  rw [Options.runProgram, Program.generate_eq]
  cases options.backend.getD .tree with
  | vm =>
    rw [Backend.run, Program.generate_eq]
    exact after_logText hquiet _ _
  | tree => exact after_logText hquiet _ _

theorem generateAndRun_quiet (program : Program) :
    options.generateAndRun path program =
      (options.plain.runProgram path program).after (options.listingDump program) "" := by
  have hplain : options.plain.runProgram path program = options.runProgram path program := rfl
  rw [Options.generateAndRun, Program.generate_eq, hplain, Options.listingDump]
  simp only [logText_quiet hquiet]
  split
  · rfl
  · next hneither =>
    have hbytecode : options.bytecode = false := by
      simp only [Bool.or_eq_true, not_or, Bool.not_eq_true] at hneither
      exact hneither.left
    rw [hbytecode, dumped, if_neg Bool.false_ne_true, Outcome.after_empty]

theorem drawAndRun_quiet (text : String) (program : Program)
    (h : options.ast = true → program.Drawable) :
    options.drawAndRun path (Lexer.ofText text).tokenize.1.source program =
      (options.plain.runProgram path program).after
        (options.drawingDump text program ++ options.listingDump program) "" := by
  rw [Options.drawAndRun, generateAndRun_quiet hquiet, Options.drawingDump]
  cases hast : options.ast with
  | false => simp [dumped]
  | true =>
    have hdrawing := drawing?_of_drawable (Lexer.ofText text).tokenize.1.source (h hast)
    rw [SpanView.hidden] at hdrawing
    simp only [hdrawing, if_true, Outcome.after_after, dumped]
    rfl

end Quiet

/-! ### Commands on a text -/

/-- What becomes of a text: it has no tokens, its tokens are no program, or it is one. -/
inductive ReadingOf (text : String) : Reading → Prop
  | noTokens {unknown : UnknownCharacter} (d : Diagnostic) :
    (Lexer.ofText text).tokenize.2 = .error unknown →
      ReadingOf text ⟨(Lexer.ofText text).tokenize.1, none, .error (.diagnostic d)⟩
  | noProgram {tokens : List Token} (parser : Parser) (d : Diagnostic) :
    (Lexer.ofText text).tokenize.2 = .ok tokens →
      ReadingOf text ⟨(Lexer.ofText text).tokenize.1, some parser, .error (.diagnostic d)⟩
  | program {tokens : List Token} (parser : Parser) (program : Program) :
    (Lexer.ofText text).tokenize.2 = .ok tokens →
      ReadingOf text ⟨(Lexer.ofText text).tokenize.1, some parser, .ok program⟩

theorem readingOf_ofText (text : String) : ReadingOf text (.ofText text) := by
  have hfails : ∀ failure, (Reading.ofText text).result = .error failure →
      ∃ d, failure = .diagnostic d := by
    intro failure hfailure
    obtain ⟨d, hd, _⟩ := readProgram_eq_error hfailure
    exact ⟨d, hd⟩
  rw [Reading.ofText] at hfails ⊢
  cases htokens : (Lexer.ofText text).tokenize with
  | mk lexer result =>
    have hlexer : lexer = (Lexer.ofText text).tokenize.1 := by rw [htokens]
    rw [htokens] at hfails
    cases result with
    | error unknown =>
      have hsecond : (Lexer.ofText text).tokenize.2 = .error unknown := by rw [htokens]
      rw [hlexer]
      exact .noTokens _ hsecond
    | ok tokens =>
      have hsecond : (Lexer.ofText text).tokenize.2 = .ok tokens := by rw [htokens]
      dsimp only at hfails ⊢
      cases hparse : Parse.program (.ofTokens tokens) with
      | error fault parser =>
        rw [hparse] at hfails
        obtain ⟨d, hd⟩ := hfails _ rfl
        rw [hlexer] at hd ⊢
        dsimp only
        rw [hd]
        exact .noProgram parser d hsecond
      | ok program parser =>
        rw [hlexer]
        exact .program parser program hsecond

section Tokens
variable {options : Options} {text : String} (parser : Parser) (result : Except Failure Program)

theorem tokenDump?_of_dumpFits
    (h : options.tokens = true → (Lexer.ofText text).tokenize.1.DumpFits) :
    options.tokenDump? ⟨(Lexer.ofText text).tokenize.1, some parser, result⟩ =
      some (options.tokenDump text) := by
  rw [Options.tokenDump?, Options.tokenDump]
  cases htokens : options.tokens with
  | false => rfl
  | true =>
    have hdump := (Lexer.gutterDump?_eq_some_iff _ _).2 ⟨h htokens, rfl⟩
    simp [hdump, dumped]

theorem tokenDump?_of_not_dumpFits (htokens : options.tokens = true)
    (h : ¬ (Lexer.ofText text).tokenize.1.DumpFits) :
    options.tokenDump? ⟨(Lexer.ofText text).tokenize.1, some parser, result⟩ = none := by
  have hnone : (Lexer.ofText text).tokenize.1.gutterDump? = none := by
    rw [Option.eq_none_iff_forall_ne_some]
    exact fun dump hdump => h ((Lexer.gutterDump?_eq_some_iff _ dump).1 hdump).1
  simp [Options.tokenDump?, htokens, hnone]

end Tokens

section Texts
variable {options : Options} (hquiet : options.verbose = false) (path text : String)
include hquiet

/-- After its token dump a command goes on. -/
theorem onText_of_dump {dump : String} (h : options.tokenDump? (.ofText text) = some dump) :
    options.onText path text = (options.onReading path (.ofText text)).after dump "" := by
  simp only [Options.onText, h, logText_quiet hquiet]

/-- Without dumps, a text is run or refused. -/
theorem onText_plain :
    options.plain.onText path text =
      match readProgram text with
      | .error failure => .failed failure
      | .ok program => options.plain.runProgram path program := by
  have hplain : options.plain.verbose = false := hquiet
  have hdraw : ∀ source program,
      options.plain.drawAndRun path source program = options.plain.runProgram path program := by
    intro source program
    have hgenerate := generateAndRun_quiet hplain path program
    have hnothing : options.plain.listingDump program = "" := rfl
    rw [hnothing, Outcome.after_empty] at hgenerate
    exact hgenerate
  have hdump : options.plain.tokenDump? (.ofText text) = some "" := rfl
  rw [onText_of_dump hplain path text hdump, Outcome.after_empty, Options.onReading, readProgram]
  cases (Reading.ofText text).result with
  | error failure => rfl
  | ok program => exact hdraw _ program

/-- **A command without dumps ends with an exit code.** If that is 1, no value was written. -/
theorem plain_ends :
    (options.plain.onText path text).ending = .ok 0 ∨
      (options.plain.onText path text).ending = .ok 1 ∧
        (options.plain.onText path text).stdout = "" := by
  have hplain : options.plain.verbose = false := hquiet
  rw [onText_plain hquiet]
  cases hread : readProgram text with
  | error failure =>
    obtain ⟨d, rfl, _⟩ := readProgram_eq_error hread
    exact .inr ⟨rfl, rfl⟩
  | ok program =>
    dsimp only
    rw [runProgram_quiet hplain]
    cases hresult : ((options.plain.backend.getD .tree).run none program).result with
    | ok values => exact .inl rfl
    | error failure =>
      have hnone : ∀ take ∈ (none : Option Sink), take.TakesAll := nofun
      obtain ⟨d, rfl⟩ := diagnostic_of_run hnone (wellFormed_of_readProgram hread) _ hresult
      exact .inr ⟨rfl, rfl⟩

/-- **Dumps that can be made are written in front**, and change nothing else. -/
theorem onText_of_canDump (h : options.CanDump text) :
    options.onText path text =
      (options.plain.onText path text).after (options.reachedDumps text) "" := by
  have hread : readProgram text = (Reading.ofText text).result := rfl
  have hdraw := drawAndRun_quiet hquiet path text
  have hgoes := @onText_of_dump options hquiet path text
  rw [onText_plain hquiet, Options.reachedDumps]
  obtain ⟨hfits, hdrawing⟩ := h
  rw [hread] at hdrawing ⊢
  have hreading := readingOf_ofText text
  generalize Reading.ofText text = reading at hreading hdrawing hgoes ⊢
  cases hreading with
  | noTokens d htokens =>
    have hdump : options.tokenDump?
        ⟨(Lexer.ofText text).tokenize.1, none, .error (.diagnostic d)⟩ = some "" := by
      simp [Options.tokenDump?]
    simp [hgoes hdump, Options.onReading, htokens]
  | noProgram parser d htokens =>
    have hdump := tokenDump?_of_dumpFits parser (.error (.diagnostic d)) fun hasked =>
      hfits hasked _ htokens
    simp [hgoes hdump, Options.onReading, htokens]
  | program parser program htokens =>
    have hdump := tokenDump?_of_dumpFits parser (.ok program) fun hasked => hfits hasked _ htokens
    rw [hgoes hdump, Options.onReading, htokens]
    dsimp only
    rw [hdraw program fun hast => hdrawing hast program rfl, Outcome.after_after]
    rfl

/-- **A token dump that cannot be made ends the command**, before the tokens are parsed. -/
theorem onText_of_not_dumpFits {tokens : List Token} (hasked : options.tokens = true)
    (htokens : (Lexer.ofText text).tokenize.2 = .ok tokens)
    (h : ¬ (Lexer.ofText text).tokenize.1.DumpFits) :
    options.onText path text = ⟨"", "", .error .integerTooLong⟩ := by
  have hnone : options.tokenDump? (.ofText text) = none := by
    have hreading := readingOf_ofText text
    generalize Reading.ofText text = reading at hreading ⊢
    cases hreading with
    | noTokens d hunknown =>
      rw [htokens] at hunknown
      cases hunknown
    | noProgram parser d => exact tokenDump?_of_not_dumpFits parser _ hasked h
    | program parser program => exact tokenDump?_of_not_dumpFits parser _ hasked h
  rw [Options.onText, hnone, logText_quiet hquiet]
  rfl

/-- **A drawing that cannot be made ends the command**, after the tokens. -/
theorem onText_of_not_drawable {program : Program} (hast : options.ast = true)
    (hread : readProgram text = .ok program) (h : ¬ program.Drawable)
    (hfits : options.tokens = true → (Lexer.ofText text).tokenize.1.DumpFits) :
    options.onText path text = ⟨options.tokenDump text, "", .error .integerTooLong⟩ := by
  have hresult : (Reading.ofText text).result = .ok program := hread
  have hgoes := @onText_of_dump options hquiet path text
  have hreading := readingOf_ofText text
  generalize Reading.ofText text = reading at hreading hresult hgoes
  cases hreading with
  | noTokens => cases hresult
  | noProgram => cases hresult
  | program parser _ htokens =>
    cases hresult
    have hdrawing := drawing?_of_not_drawable (Lexer.ofText text).tokenize.1.source h
    rw [SpanView.hidden] at hdrawing
    rw [hgoes (tokenDump?_of_dumpFits parser _ hfits)]
    simp [Options.onReading, Options.drawAndRun, hast, hdrawing, Outcome.failed, Outcome.after]

end Texts

/-! ### Whole commands -/

/-- A command whose file is a text is carried out on that text. -/
theorem runIn_eq_onText {directory : Directory} {arguments : List String} {options : Options}
    {file text : String} {bytes : List UInt8}
    (hcommand : readCommand arguments = .ok (options, file))
    (hname : '\x00' ∉ (normalPath file).toList)
    (hbytes : directory.read (normalPath file) = .ok bytes) (htext : textOf bytes = .ok text) :
    runIn directory arguments = options.onText (normalPath file) text := by
  have hcontains : (normalPath file).toList.contains '\x00' = false :=
    Bool.eq_false_iff.2 fun h => hname (List.contains_iff_mem.1 h)
  simp only [runIn, hcommand, hcontains, Bool.false_eq_true, if_false, hbytes, Options.onContent,
    htext]

/-- **Dumps only add output**, as long as those that are asked for can be made. The command without
dumps ends with an exit code, and writes no value if that is 1. With dumps it writes those that it
gets to in front, and nothing else changes. If the drawing is asked for and a literal is too long to
show, only the tokens are dumped, and there is no exit code; if the tokens cannot be dumped, nothing
is. They can, unless the length of the text is itself too long to show. -/
theorem dumps_only_add {directory : Directory} {arguments undumped : List String}
    {options : Options} {file text : String} {bytes : List UInt8}
    (hcommand : readCommand arguments = .ok (options, file))
    (hundumped : readCommand undumped = .ok (options.plain, file))
    (hquiet : options.verbose = false) (hname : '\x00' ∉ (normalPath file).toList)
    (hbytes : directory.read (normalPath file) = .ok bytes) (htext : textOf bytes = .ok text) :
    ((runIn directory undumped).ending = .ok 0 ∨
      (runIn directory undumped).ending = .ok 1 ∧ (runIn directory undumped).stdout = "") ∧
    (options.CanDump text →
      runIn directory arguments =
        (runIn directory undumped).after (options.reachedDumps text) "") ∧
    (∀ program, options.ast = true → readProgram text = .ok program → ¬ program.Drawable →
      (options.tokens = true → (Lexer.ofText text).tokenize.1.DumpFits) →
        runIn directory arguments = ⟨options.tokenDump text, "", .error .integerTooLong⟩) ∧
    (∀ tokens, options.tokens = true → (Lexer.ofText text).tokenize.2 = .ok tokens →
      ¬ (Lexer.ofText text).tokenize.1.DumpFits →
        runIn directory arguments = ⟨"", "", .error .integerTooLong⟩) ∧
    (Text.Decimal.fits (text.toList.length + 1 : Nat) = true →
      ∀ tokens, (Lexer.ofText text).tokenize.2 = .ok tokens →
        (Lexer.ofText text).tokenize.1.DumpFits) := by
  rw [runIn_eq_onText hcommand hname hbytes htext, runIn_eq_onText hundumped hname hbytes htext]
  exact ⟨plain_ends hquiet _ text, onText_of_canDump hquiet _ text,
    fun program hast hread => onText_of_not_drawable hquiet _ text hast hread,
    fun tokens hasked htokens => onText_of_not_dumpFits hquiet _ text hasked htokens,
    fun hlength tokens htokens => Lexer.dumpFits_of_tokenize htokens hlength⟩

/-- A file that prints a number. -/
def sevenDirectory : Directory :=
  ⟨[(["p.let".toList], [112, 114, 105, 110, 116, 40, 55, 41, 59])], []⟩

theorem dumps_only_add_sevenDirectory :
    readCommand ["--tokens", "--ast", "--bytecode", "-b", "tree", "p.let"] =
        .ok (⟨some .tree, true, true, true, false⟩, "p.let") ∧
      readCommand ["-b", "tree", "p.let"] =
        .ok (⟨some .tree, false, false, false, false⟩, "p.let") ∧
      '\x00' ∉ (normalPath "p.let").toList ∧
      sevenDirectory.read (normalPath "p.let") = .ok [112, 114, 105, 110, 116, 40, 55, 41, 59] ∧
      textOf [112, 114, 105, 110, 116, 40, 55, 41, 59] = .ok "print(7);" ∧
      runIn sevenDirectory ["--tokens", "--ast", "--bytecode", "-b", "tree", "p.let"] =
        (runIn sevenDirectory ["-b", "tree", "p.let"]).after
          ((⟨some .tree, true, true, true, false⟩ : Options).reachedDumps "print(7);") "" := by
  have hcommand : readCommand ["--tokens", "--ast", "--bytecode", "-b", "tree", "p.let"] =
      .ok (⟨some .tree, true, true, true, false⟩, "p.let") := by
    decide +kernel
  have hundumped : readCommand ["-b", "tree", "p.let"] =
      .ok (⟨some .tree, false, false, false, false⟩, "p.let") := by
    decide +kernel
  have hname : '\x00' ∉ (normalPath "p.let").toList := by decide
  have hbytes : sevenDirectory.read (normalPath "p.let") =
      .ok [112, 114, 105, 110, 116, 40, 55, 41, 59] := by
    decide +kernel
  have htext : textOf [112, 114, 105, 110, 116, 40, 55, 41, 59] = .ok "print(7);" := by
    decide +kernel
  have hread : readProgram "print(7);" = .ok [.printStmt (.literal 7 ⟨6, 7⟩) ⟨0, 9⟩] := by
    decide +kernel
  obtain ⟨_, hdumps, _, _, hfits⟩ := dumps_only_add hcommand hundumped rfl hname hbytes htext
  refine ⟨hcommand, hundumped, hname, hbytes, htext, hdumps ⟨fun _ => hfits ?_, ?_⟩⟩
  · exact fits_of_le_lengthLimit (by decide)
  · intro _ program hprogram
    rw [hread] at hprogram
    rw [← Except.ok.inj hprogram]
    exact ⟨by decide +kernel, by decide +kernel⟩

end LetPrint.CommandLine
