import LetPrint.Proofs.Positions

/-! Names are what they are called by, and nothing more.

Renaming the name tokens of a list, so that different names stay different, is one way to
copy it. The parser comes to the same program or the same fault, renamed, and the program
runs as before on both backends, renamed. `renaming_commutes` puts this together: no name
is special, and no two names are mistaken for each other. -/
namespace LetPrint

/-- The names that occur in some tokens. -/
def identNames (tokens : List Token) : Set String :=
  {n | ∃ t ∈ tokens, t.kind = .ident ∧ t.raw = n}

/-- The report without the words of a failure. -/
def RunReport.withoutDetail (report : RunReport) : RunReport :=
  ⟨report.result.mapError Failure.withoutDetail, report.sunk⟩

/-- Two failures of the parser that say the same of a token and of the renamed token, or that both
say nothing of it. -/
inductive RenamedFailure (rename : String → String) : Failure → Failure → Prop
  | unexpected (expected : String) (found : Option Token) (detail detail' : String) :
    RenamedFailure rename
      (.diagnostic (.unexpected expected (ParseFault.foundText found) detail))
      (.diagnostic (.unexpected expected
        (ParseFault.foundText (found.map (Token.copy (.ofNames rename)))) detail'))
  | naming (fault : NameFault) (name detail detail' : String) :
    RenamedFailure rename (.diagnostic (.naming fault name detail))
      (.diagnostic (.naming fault (rename name) detail'))
  | tooLong {failure : Failure} : failure.TooLong → RenamedFailure rename failure failure

/-- Two programs that run alike, the second under other names. On either backend the runs
return the same values or fail with the same error, but for the names in it, at the same
instruction or statement. The values printed are the same, and so are the variables under
their other names. -/
structure RunsRenamed (rename : String → String) (sink : Option Sink)
    (program program' : Program) : Prop where
  machine : ∃ code, program.generate = .ok code ∧
    program'.generate = .ok (code.map (Instr.renamed rename)) ∧
    Machine.run (.plain sink) (.load (code.map (Instr.renamed rename))) =
      (Machine.naming rename).result id (Machine.run (.plain sink) (.load code))
  evaluator : Eval.interpret sink program'.nodes ∅ =
    (Eval.naming rename).result id (Eval.interpret sink program.nodes ∅)
  started : (Eval.starts sink ∅ program'.nodes).length = (Eval.starts sink ∅ program.nodes).length
  reports : ∀ backend : Backend,
    (backend.run sink program').withoutDetail = (backend.run sink program).withoutDetail

/-! ### Failures -/

/-- Where progress stops, the fault about the renamed tokens says the same of them. -/
theorem Stops.renamedFailure {q : Progress} {left : List Token} {fault : ParseFault} {taken : Nat}
    (h : Stops q left fault taken) (rename : String → String) (source source' : Option Source)
    (tokens tokens' : List Token) :
    RenamedFailure rename (fault.failure source tokens)
      ((fault.copy (.ofNames rename)).failure source' tokens') := by
  have hraw : ∀ {t : Token}, t.kind = .ident → (t.copy (.ofNames rename)).raw = rename t.raw := by
    intro t hident
    rw [Token.copy_of_ident hident]
    rfl
  cases h with
  | ended kinds => exact .unexpected _ none _ _
  | @misfit t _ kinds => exact .unexpected _ (some t) _ _
  | redeclared first hident =>
    rw [ParseFault.copy, ParseFault.failure, ParseFault.failure, hraw hident]
    exact .naming .redeclared _ _ _
  | undeclared hident =>
    rw [ParseFault.copy, ParseFault.failure, ParseFault.failure, hraw hident]
    exact .naming .undeclared _ _ _

/-- Names are no obstacle to a report: it can be made of renamed tokens if it can of the tokens. -/
theorem ParseFault.obstacle?_renamed (fault : ParseFault) (rename : String → String)
    (source : Option Source) (tokens : List Token) :
    (fault.copy (.ofNames rename)).obstacle? source (tokens.map (Token.copy (.ofNames rename))) =
      fault.obstacle? source tokens := by
  have hend : endSpan (tokens.map (Token.copy (.ofNames rename))) = endSpan tokens := by
    rw [endSpan, endSpan, List.getLast?_map]
    cases tokens.getLast? <;> rfl
  have hcited : (fault.copy (.ofNames rename)).citedOffsets = fault.citedOffsets := by
    cases fault <;> rfl
  have hplace : (fault.copy (.ofNames rename)).place? (tokens.map (Token.copy (.ofNames rename))) =
      fault.place? tokens := by
    cases fault with
    | unexpected kinds found =>
      cases found with
      | none => exact congrArg some hend
      | some t => rfl
    | _ => rfl
  rw [obstacle?, obstacle?, hcited, hplace]

/-- Where progress stops, the same is reported of the renamed tokens, with the same source. -/
theorem Stops.renamedReport {q : Progress} {left : List Token} {fault : ParseFault} {taken : Nat}
    (h : Stops q left fault taken) (rename : String → String) (source : Option Source)
    (tokens : List Token) :
    RenamedFailure rename (fault.reported source tokens)
      ((fault.copy (.ofNames rename)).reported source
        (tokens.map (Token.copy (.ofNames rename)))) := by
  rw [ParseFault.reported, ParseFault.reported, ParseFault.obstacle?_renamed]
  cases hobstacle : fault.obstacle? source tokens with
  | none => exact h.renamedFailure rename source source tokens _
  | some failure => exact .tooLong (ParseFault.tooLong_of_obstacle? hobstacle)

/-- What stops a program is the same kind of error under other names. -/
theorem SameError.withoutDetail_renamed {merror : MachineError} {error : EvalError}
    (h : SameError merror error) (rename : String → String) :
    (merror.renamed rename).failure.withoutDetail = merror.failure.withoutDetail ∧
      (error.renamed rename).failure.withoutDetail = error.failure.withoutDetail := by
  cases h with
  | refused refusal => exact ⟨rfl, rfl⟩
  | stop ip hstop =>
    cases hstop with
    | unbound name => exact ⟨rfl, rfl⟩
    | zeroDivisor => exact ⟨rfl, rfl⟩

/-! ### Runs -/

section Runs
variable {rename : String → String} {names : Set String} {program : Program}
variable (hinj : Set.InjOn rename names) (hprogram : ∀ s ∈ program, ∀ n ∈ s.names, n ∈ names)
include hinj hprogram

theorem Backend.run_renamed (backend : Backend) (sink : Option Sink) :
    (backend.run sink (program.copy (.ofNames rename))).withoutDetail =
      (backend.run sink program).withoutDetail := by
  have hsame := sameOutcome_of_program sink program
  cases backend with
  | vm =>
    have hcode : (program.copy (.ofNames rename)).code = program.code.map (Instr.renamed rename) :=
      program.code_copy
    rw [run, run, Program.generate_eq, Program.generate_eq, hcode]
    dsimp only
    rw [runCode, runCode, Machine.run_renamed hinj _ (Program.namedIn_code hprogram)]
    generalize Machine.run (.plain sink) (.load program.code) = vm at hsame ⊢
    generalize Eval.interpret sink program.nodes ∅ = tree at hsame
    cases hsame with
    | returned printed m => rfl
    | @raised merror error m herror =>
      show RunReport.mk (.error (merror.renamed rename).failure.withoutDetail) _ = _
      rw [(herror.withoutDetail_renamed rename).left]
      rfl
  | tree =>
    rw [run, run, runNodes, runNodes]
    have hrun : Eval.interpret sink (program.copy (.ofNames rename)).nodes ∅ = _ :=
      Eval.interpret_copy hinj sink hprogram
    rw [hrun]
    generalize Machine.run (.plain sink) (.load program.code) = vm at hsame
    generalize Eval.interpret sink program.nodes ∅ = tree at hsame ⊢
    cases hsame with
    | returned printed m => rfl
    | @raised merror error m herror =>
      show RunReport.mk (.error (error.renamed rename).failure.withoutDetail) _ = _
      rw [(herror.withoutDetail_renamed rename).right]
      rfl

theorem runsRenamed (sink : Option Sink) :
    RunsRenamed rename sink program (program.copy (.ofNames rename)) := by
  constructor
  case machine =>
    refine ⟨program.code, program.generate_eq, ?_, ?_⟩
    · rw [Program.generate_eq, Program.code_copy]
      rfl
    · exact Machine.run_renamed hinj (.plain sink) (Program.namedIn_code hprogram)
  case evaluator => exact Eval.interpret_copy hinj sink hprogram
  case started => exact Eval.length_starts_copy hinj sink hprogram Store.namedIn_empty
  case reports => exact fun backend => backend.run_renamed hinj hprogram sink

end Runs

/-- **Renaming commutes with everything.** For tokens that fit their kinds, and for a renaming
under which different names among them stay different, the renamed tokens are parsed as what
the tokens are parsed as, renamed: the same program, or the same fault at the same token. With the
same source the fault is reported in the same way, of the other name. A program runs as before
under its other names, on both backends and with every sink. -/
theorem renaming_commutes (tokens : List Token) (rename : String → String)
    (hfits : Fitting tokens) (hinj : Set.InjOn rename (identNames tokens)) :
    Parse.program (.ofTokens (tokens.map (Token.copy (.ofNames rename)))) =
      (Copying.ofNames rename).parsing.result (Program.copy (.ofNames rename))
        (Parse.program (.ofTokens tokens)) ∧
    (∀ fault p, Parse.program (.ofTokens tokens) = .error fault p → ∀ source,
      RenamedFailure rename (fault.reported source tokens)
        ((fault.copy (.ofNames rename)).reported source
          (tokens.map (Token.copy (.ofNames rename))))) ∧
    ∀ program p, Parse.program (.ofTokens tokens) = .ok program p → ∀ sink,
      RunsRenamed rename sink program (program.copy (.ofNames rename)) := by
  refine ⟨?_, ?_, ?_⟩
  · have hnames : ∀ t ∈ tokens, t.NamedIn (identNames tokens) := fun t ht hident =>
      ⟨t, ht, hident, rfl⟩
    have hname : Set.InjOn (Copying.ofNames rename).name (identNames tokens) := hinj
    exact Parse.program_copy hname hnames
  · intro fault p hparse source
    obtain ⟨_, left, q, taken, _, _, _, hstops⟩ := Parse.program_error hparse hfits
    exact hstops.renamedReport rename source tokens
  · intro program p hparse sink
    have hprogram := (Parse.program_ok hparse).right hfits
    exact runsRenamed hinj (fun s hs n hn => hprogram.mem_names hs hn) sink

/-- Two names exchanged. All other names become one. -/
def exchanged (name : String) : String :=
  if name = "a" then "b" else "a"

theorem injOn_exchanged {tokens : List Token}
    (h : ∀ t ∈ tokens, t.kind = .ident → t.raw = "a" ∨ t.raw = "b") :
    Set.InjOn exchanged (identNames tokens) := by
  have hne : exchanged "a" ≠ exchanged "b" := by decide
  have hpair : Set.InjOn exchanged {"a", "b"} := by
    rintro m (rfl | rfl) n (rfl | rfl) heq
    · rfl
    · exact absurd heq hne
    · exact absurd heq.symm hne
    · rfl
  refine hpair.mono ?_
  rintro _ ⟨t, ht, hident, rfl⟩
  exact h t ht hident

/-- The tokens of `let a = 1; let b = b;`, whose run fails. -/
def ownValueTokens : List Token := [
  ⟨.letWord, "let", ⟨0, 3⟩⟩, ⟨.ident, "a", ⟨4, 5⟩⟩, ⟨.equals, "=", ⟨6, 7⟩⟩,
  ⟨.number, "1", ⟨8, 9⟩⟩, ⟨.semicolon, ";", ⟨9, 10⟩⟩, ⟨.letWord, "let", ⟨11, 14⟩⟩,
  ⟨.ident, "b", ⟨15, 16⟩⟩, ⟨.equals, "=", ⟨17, 18⟩⟩, ⟨.ident, "b", ⟨19, 20⟩⟩,
  ⟨.semicolon, ";", ⟨20, 21⟩⟩]

/-- The tokens of `let a = b;`, where nothing declares the second name. -/
def unknownValueTokens : List Token := [
  ⟨.letWord, "let", ⟨0, 3⟩⟩, ⟨.ident, "a", ⟨4, 5⟩⟩, ⟨.equals, "=", ⟨6, 7⟩⟩,
  ⟨.ident, "b", ⟨8, 9⟩⟩, ⟨.semicolon, ";", ⟨9, 10⟩⟩]

theorem fitting_ownValueTokens : Fitting ownValueTokens := by
  have hdigits : TokenKind.number.Spells "1".toList := ⟨by decide, List.all_eq_true.1 rfl⟩
  simp only [ownValueTokens, fitting_cons]
  exact ⟨.inr rfl, .inl rfl, .inr rfl, .inr hdigits, .inr rfl, .inr rfl, .inl rfl, .inr rfl,
    .inl rfl, .inr rfl, fitting_nil⟩

theorem fitting_unknownValueTokens : Fitting unknownValueTokens := by
  simp only [unknownValueTokens, fitting_cons]
  exact ⟨.inr rfl, .inl rfl, .inr rfl, .inl rfl, .inr rfl, fitting_nil⟩

theorem renaming_commutes_exchanged :
    (Set.InjOn exchanged (identNames ownValueTokens) ∧
      ∃ program p, Parse.program (.ofTokens ownValueTokens) = .ok program p ∧
        ∀ sink, RunsRenamed exchanged sink program (program.copy (.ofNames exchanged))) ∧
    Set.InjOn exchanged (identNames unknownValueTokens) ∧
      ∃ fault p, Parse.program (.ofTokens unknownValueTokens) = .error fault p ∧
        RenamedFailure exchanged (fault.reported none unknownValueTokens)
          ((fault.copy (.ofNames exchanged)).reported none
            (unknownValueTokens.map (Token.copy (.ofNames exchanged)))) := by
  have hown : Set.InjOn exchanged (identNames ownValueTokens) := injOn_exchanged (by decide)
  have hunknown : Set.InjOn exchanged (identNames unknownValueTokens) :=
    injOn_exchanged (by decide)
  obtain ⟨program, p, hprogram⟩ :
      ∃ program p, Parse.program (.ofTokens ownValueTokens) = .ok program p := ⟨_, _, rfl⟩
  obtain ⟨fault, p', hfault⟩ :
      ∃ fault p, Parse.program (.ofTokens unknownValueTokens) = .error fault p := ⟨_, _, rfl⟩
  obtain ⟨_, _, hruns⟩ := renaming_commutes ownValueTokens exchanged fitting_ownValueTokens hown
  obtain ⟨_, hfails, _⟩ :=
    renaming_commutes unknownValueTokens exchanged fitting_unknownValueTokens hunknown
  refine ⟨⟨hown, program, p, hprogram, hruns program p hprogram⟩, hunknown, fault, p', hfault, ?_⟩
  exact hfails fault p' hfault none

end LetPrint
