import LetPrint.Proofs.Parsing

/-! Which tokens the parser takes for a program.

Exactly those that are one: the kinds follow the grammar and the names are well scoped
(`accepted_iff`). What it returns is then the one tree that the tokens have
(`parseTokens_exact`). -/
namespace LetPrint

/-- The parser returns a program. -/
def Accepted (tokens : List Token) : Prop :=
  ∃ program, parseTokens tokens = .ok program

section
variable {tokens : List Token}

theorem parseTokens_eq_ok {program : Program} :
    parseTokens tokens = .ok program ↔
      ∃ p, Parse.program (.ofTokens tokens) = .ok program p := by
  rw [parseTokens]
  cases Parse.program (.ofTokens tokens) <;> simp

theorem run_of_accepted (h : Accepted tokens) :
    ∃ declared, Progress.start.run tokens = some ⟨[], declared⟩ := by
  obtain ⟨program, hparse⟩ := h
  obtain ⟨p, hprogram⟩ := parseTokens_eq_ok.1 hparse
  exact (Parse.program_ok hprogram).1

/-- The parser cannot fail on tokens that progress runs through: it would have to stop
where progress does. -/
theorem accepted_of_run (hfits : Fitting tokens) {declared : List String}
    (h : Progress.start.run tokens = some ⟨[], declared⟩) : Accepted tokens := by
  cases hprogram : Parse.program (.ofTokens tokens) with
  | ok program p => exact ⟨program, parseTokens_eq_ok.2 ⟨p, hprogram⟩⟩
  | error fault p =>
    obtain ⟨used, left, q, taken, rfl, hrun, _, hstops⟩ := Parse.program_error hprogram hfits
    rw [Progress.run_append, hrun, Option.bind_some] at h
    exact absurd rfl (hstops.due_ne_nil h)

theorem accepted_iff (hfits : Fitting tokens) :
    Accepted tokens ↔ IsProgram (tokens.map Token.kind) ∧ WellScoped tokens := by
  constructor
  · intro h
    obtain ⟨declared, hrun⟩ := run_of_accepted h
    obtain ⟨hdue, hscoped, _⟩ := Progress.run_start_iff.1 hrun
    exact ⟨isProgram_iff.2 hdue, hscoped⟩
  · intro h
    obtain ⟨hkinds, hscoped⟩ := h
    have hrun : Progress.start.run tokens = some ⟨[], letNames tokens⟩ :=
      Progress.run_start_iff.2 ⟨isProgram_iff.1 hkinds, hscoped, rfl⟩
    exact accepted_of_run hfits hrun

/-- **The parser accepts exactly its language**, and returns the one tree of the tokens,
which reads back as they do. -/
theorem parseTokens_exact (hfits : Fitting tokens) :
    ((∃ program, parseTokens tokens = .ok program) ↔
      IsProgram (tokens.map Token.kind) ∧ WellScoped tokens) ∧
    ∀ program, parseTokens tokens = .ok program →
      ProgramOf tokens program ∧ (∀ other, ProgramOf tokens other → other = program) ∧
        List.Forall₂ Token.ReadsAs tokens program.spelling := by
  refine ⟨accepted_iff hfits, fun program h => ?_⟩
  obtain ⟨p, hprogram⟩ := parseTokens_eq_ok.1 h
  have htree : ProgramOf tokens program := (Parse.program_ok hprogram).2 hfits
  exact ⟨htree, fun other hother => hother.unique htree, htree.spelling hfits⟩

end

/-- The tokens of `let x = 007 + x;`, where a name is used in its own statement and a
number has zeros in front. -/
def selfReference : List Token := [
  ⟨.letWord, "let", ⟨0, 3⟩⟩, ⟨.ident, "x", ⟨4, 5⟩⟩, ⟨.equals, "=", ⟨6, 7⟩⟩,
  ⟨.number, "007", ⟨8, 11⟩⟩, ⟨.operator, "+", ⟨12, 13⟩⟩, ⟨.ident, "x", ⟨14, 15⟩⟩,
  ⟨.semicolon, ";", ⟨15, 16⟩⟩]

theorem fitting_selfReference : Fitting selfReference := by
  have hdigits : TokenKind.number.Spells "007".toList :=
    ⟨by decide, List.all_eq_true.1 rfl⟩
  simp only [selfReference, fitting_cons]
  exact ⟨.inr rfl, .inl rfl, .inr rfl, .inr hdigits, .inr (.inl rfl), .inl rfl, .inr rfl,
    fitting_nil⟩

theorem parseTokens_exact_selfReference :
    Fitting selfReference ∧ IsProgram (selfReference.map Token.kind) ∧ WellScoped selfReference ∧
      List.Forall₂ Token.ReadsAs selfReference
        [(.letWord, "let"), (.ident, "x"), (.equals, "="), (.number, "7"), (.operator, "+"),
          (.ident, "x"), (.semicolon, ";")] := by
  have hparse : parseTokens selfReference = .ok [.letStmt ⟨.ident, "x", ⟨4, 5⟩⟩
      (.binary (.literal 7 ⟨8, 11⟩) .add (.var ⟨.ident, "x", ⟨14, 15⟩⟩ ⟨14, 15⟩) ⟨8, 15⟩)
      ⟨0, 16⟩] := by
    decide
  obtain ⟨haccepts, htree⟩ := parseTokens_exact fitting_selfReference
  obtain ⟨hkinds, hscoped⟩ := haccepts.1 ⟨_, hparse⟩
  exact ⟨fitting_selfReference, hkinds, hscoped, (htree _ hparse).2.2⟩

end LetPrint
