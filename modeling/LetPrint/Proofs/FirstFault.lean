import LetPrint.Proofs.Acceptance
import LetPrint.Proofs.Reports

/-! Where the parser reports a fault.

`FailsAt tokens k` says, in terms of the tokens that are accepted, that a list of tokens
fails at its token number `k` and at no other. The parser reports that token, and is left
right before it; if the grammar would take the token and only its name is at fault, the
parser says so and is left right after it. Tokens put together by hand can stand so far out
that there is no report (`first_fault`, `first_fault_withheld`). -/
namespace LetPrint
open Text

/-- The tokens before number `k` can go on to a program; with token number `k` they cannot.
If there is no such token, the program is unfinished. -/
structure FailsAt (tokens : List Token) (k : Nat) : Prop where
  within : k ≤ tokens.length
  viable : ∃ more, Spelled more ∧ Accepted (tokens.take k ++ more)
  doomed : k < tokens.length → ∀ more, ¬ Accepted (tokens.take (k + 1) ++ more)
  unfinished : k = tokens.length → ¬ Accepted tokens

/-- Some kinds make a program of the tokens, whatever their names. -/
def Grammatical (tokens : List Token) : Prop :=
  ∃ kinds, IsProgram (tokens.map Token.kind ++ kinds)

/-- How the failure of tokens at number `k` is reported, with the place where the parser is
left. -/
inductive ReportedAt (tokens : List Token) (k : Nat) : Failure → Int → Prop
  | ended {expected detail : String} : k = tokens.length →
    ReportedAt tokens k (.diagnostic (.unexpected expected "end of input" detail)) k
  | misfit {t : Token} {expected detail : String} : tokens[k]? = some t →
    ¬ Grammatical (tokens.take (k + 1)) →
      ReportedAt tokens k (.diagnostic (.unexpected expected ("'" ++ t.raw ++ "'") detail)) k
  | redeclared {t : Token} {detail : String} : tokens[k]? = some t → t.kind = .ident →
    Grammatical (tokens.take (k + 1)) → AfterLet (tokens.take k) →
      t.raw ∈ letNames (tokens.take k) →
      ReportedAt tokens k (.diagnostic (.naming .redeclared t.raw detail)) (k + 1)
  | undeclared {t : Token} {detail : String} : tokens[k]? = some t → t.kind = .ident →
    Grammatical (tokens.take (k + 1)) → ¬ AfterLet (tokens.take k) →
      t.raw ∉ letNames (tokens.take k) →
      ReportedAt tokens k (.diagnostic (.naming .undeclared t.raw detail)) (k + 1)

/-- Tokens fail at one place only: before a later one they could still go on. -/
theorem FailsAt.unique {tokens : List Token} {j k : Nat} (hj : FailsAt tokens j)
    (hk : FailsAt tokens k) : j = k := by
  have hle : ∀ {i l}, FailsAt tokens i → FailsAt tokens l → l ≤ i := by
    intro i l hi hl
    by_contra hlt
    obtain ⟨more, _, haccepted⟩ := hl.viable
    have hwithin := hl.within
    have hsplit : tokens.take l = tokens.take (i + 1) ++ (tokens.take l).drop (i + 1) := by
      have htake : (tokens.take l).take (i + 1) = tokens.take (i + 1) := by
        rw [List.take_take, Nat.min_eq_left (by omega)]
      rw [← htake, List.take_append_drop]
    rw [hsplit, List.append_assoc] at haccepted
    exact hi.doomed (by omega) _ haccepted
  exact Nat.le_antisymm (hle hk hj) (hle hj hk)

section
variable {used left : List Token} {q : Progress}

theorem take_length_succ (t : Token) (rest : List Token) :
    (used ++ t :: rest).take (used.length + 1) = used ++ [t] := by
  rw [List.take_length_add_append]
  rfl

theorem grammatical_iff {tokens : List Token} :
    Grammatical tokens ↔ ∃ due, dueAfter [] (tokens.map Token.kind) = some due := by
  constructor
  · intro h
    obtain ⟨kinds, hprogram⟩ := h
    rw [isProgram_iff, dueAfter_append, Option.bind_eq_some_iff] at hprogram
    obtain ⟨due, hdue, _⟩ := hprogram
    exact ⟨due, hdue⟩
  · intro h
    obtain ⟨due, hdue⟩ := h
    obtain ⟨kinds, hkinds⟩ := exists_dueAfter_eq_nil due
    refine ⟨kinds, isProgram_iff.2 ?_⟩
    rw [dueAfter_append, hdue, Option.bind_some, hkinds]

/-- The grammar takes one more token if progress does, its name aside. -/
theorem grammatical_append_singleton (hrun : Progress.start.run used = some q) {t : Token} :
    Grammatical (used ++ [t]) ↔ nextDue q.due t.kind ≠ none := by
  obtain ⟨hdue, _⟩ := Progress.run_start_iff.1 hrun
  rw [grammatical_iff, List.map_append, dueAfter_append, hdue, Option.bind_some,
    Option.ne_none_iff_exists']
  simp only [List.map_cons, List.map_nil, dueAfter, Option.bind_fun_some]

/-- What progress has taken can go on to a program, with tokens that the lexer could make. -/
theorem exists_accepted (hfits : Fitting used) (hrun : Progress.start.run used = some q) :
    ∃ more, Spelled more ∧ Accepted (used ++ more) := by
  obtain ⟨more, hmore, declared, hend⟩ :=
    Progress.completable_of_ordered (Progress.after_of_run hrun).ordered
  have hall : Progress.start.run (used ++ more) = some ⟨[], declared⟩ := by
    rw [Progress.run_append, hrun, Option.bind_some, hend]
  exact ⟨more, hmore, accepted_of_run (fitting_append.2 ⟨hfits, hmore.fitting⟩) hall⟩

/-- Tokens fail where progress stops. -/
theorem failsAt_of_stops (hfits : Fitting used) (hrun : Progress.start.run used = some q)
    {fault : ParseFault} {taken : Nat} (hstops : Stops q left fault taken) :
    FailsAt (used ++ left) used.length := by
  constructor
  case within => rw [List.length_append]; omega
  case viable =>
    rw [List.take_left]
    exact exists_accepted hfits hrun
  case doomed =>
    intro hlt more haccepted
    cases left with
    | nil => simp at hlt
    | cons t rest =>
      obtain ⟨declared, hall⟩ := run_of_accepted haccepted
      rw [take_length_succ, Progress.run_append, Progress.run_append, hrun, Option.bind_some,
        Progress.run_singleton, hstops.take?_eq_none, Option.bind_none] at hall
      cases hall
  case unfinished =>
    intro hlength haccepted
    obtain ⟨declared, hall⟩ := run_of_accepted haccepted
    rw [Progress.run_append, hrun, Option.bind_some] at hall
    exact hstops.due_ne_nil hall rfl

/-- The fault with which the parser stops is about the place where it stops. -/
theorem reportedAt_of_stops (hrun : Progress.start.run used = some q) {fault : ParseFault}
    {taken : Nat} (hstops : Stops q left fault taken) (source : Option Source) :
    ReportedAt (used ++ left) used.length (fault.failure source (used ++ left))
      (used.length + (taken : Nat)) := by
  have hafter := Progress.after_of_run hrun
  have hfirst : (used ++ left).take used.length = used := List.take_left
  cases hstops with
  | ended kinds hdue => exact .ended (by simp)
  | @misfit t rest kinds hnext =>
    refine .misfit (by simp) ?_
    rw [take_length_succ, grammatical_append_singleton hrun]
    exact fun h => h hnext
  | @redeclared t rest first hident hnext hname hmem =>
    refine .redeclared (by simp) hident ?_ ?_ ?_
    · rw [take_length_succ, grammatical_append_singleton hrun]
      exact hnext
    · rw [hfirst]
      exact hafter.naming.1 hname
    · rw [hfirst, ← hafter.declared]
      exact hmem
  | @undeclared t rest hident hnext hname hmem =>
    refine .undeclared (by simp) hident ?_ ?_ ?_
    · rw [take_length_succ, grammatical_append_singleton hrun]
      exact hnext
    · rw [hfirst]
      exact fun h => hname (hafter.naming.2 h)
    · rw [hfirst, ← hafter.declared]
      exact hmem

end

/-- **A fault is reported at the earliest token** that no program goes on with, if the report can
be put in words; if not, the parser is left at that place all the same. Within reach of the source
it always can. -/
theorem first_fault {tokens : List Token} (hfits : Fitting tokens) {fault : ParseFault}
    {p : Parser} (h : Parse.program (.ofTokens tokens) = .error fault p)
    (source : Option Source) :
    ∃ k, FailsAt tokens k ∧ (∀ j, FailsAt tokens j → j = k) ∧
      (fault.Tellable source tokens → ReportedAt tokens k (fault.reported source tokens) p.index) ∧
      (¬ fault.Tellable source tokens → (fault.reported source tokens).TooLong ∧
        ∃ told, ReportedAt tokens k told p.index) ∧
      (WithinReach source tokens → fault.Tellable source tokens) := by
  obtain ⟨used, left, q, taken, rfl, hrun, hindex, hstops⟩ := Parse.program_error h hfits
  have hfails := failsAt_of_stops (fitting_append.1 hfits).1 hrun hstops
  have hreport := reportedAt_of_stops hrun hstops source
  rw [← hindex] at hreport
  refine ⟨used.length, hfails, fun j hj => hj.unique hfails, fun htold => ?_, fun huntold => ?_,
    fun hreach => tellable_of_error hreach h⟩
  · rw [ParseFault.reported_of_tellable htold]
    exact hreport
  · exact ⟨ParseFault.reported_of_not_tellable huntold, _, hreport⟩

/-- The tokens of `print(y);`, where nothing declares the name. -/
def unknownName : List Token := [
  ⟨.printWord, "print", ⟨0, 5⟩⟩, ⟨.openParen, "(", ⟨5, 6⟩⟩, ⟨.ident, "y", ⟨6, 7⟩⟩,
  ⟨.closeParen, ")", ⟨7, 8⟩⟩, ⟨.semicolon, ";", ⟨8, 9⟩⟩]

theorem fitting_unknownName : Fitting unknownName := by
  simp only [unknownName, fitting_cons]
  exact ⟨.inr rfl, .inr rfl, .inl rfl, .inr rfl, .inr rfl, fitting_nil⟩

theorem first_fault_unknownName :
    Fitting unknownName ∧ WithinReach none unknownName ∧
      ∃ fault p, Parse.program (.ofTokens unknownName) = .error fault p ∧
        ∃ k, FailsAt unknownName k ∧ (∀ j, FailsAt unknownName j → j = k) ∧
          ReportedAt unknownName k (fault.reported none unknownName) 3 := by
  have hreach : WithinReach none unknownName := by
    constructor
    · exact fun s hs => absurd hs (by simp)
    · decide
  obtain ⟨fault, p, herror, hindex⟩ :
      ∃ fault p, Parse.program (.ofTokens unknownName) = .error fault p ∧ p.index = 3 :=
    ⟨_, _, rfl, rfl⟩
  obtain ⟨k, hfails, hunique, htold, _, hwithin⟩ := first_fault fitting_unknownName herror none
  rw [hindex] at htold
  exact ⟨fitting_unknownName, hreach, fault, p, herror, k, hfails, hunique, htold (hwithin hreach)⟩

/-- A report at a place is a diagnostic. -/
theorem ReportedAt.ne_integerTooLong {tokens : List Token} {k : Nat} {failure : Failure}
    {index : Int} (h : ReportedAt tokens k failure index) : failure ≠ .integerTooLong := by
  rintro rfl
  cases h

/-- A name declared twice, for the first time at an offset. -/
def farDeclaration (offset : Int) : List Token := [
  ⟨.letWord, "let", ⟨0, 3⟩⟩, ⟨.ident, "x", ⟨offset, offset + 1⟩⟩, ⟨.equals, "=", ⟨5, 6⟩⟩,
  ⟨.number, "1", ⟨6, 7⟩⟩, ⟨.semicolon, ";", ⟨7, 8⟩⟩, ⟨.letWord, "let", ⟨9, 12⟩⟩,
  ⟨.ident, "x", ⟨13, 14⟩⟩]

theorem fitting_farDeclaration (offset : Int) : Fitting (farDeclaration offset) := by
  have hdigits : TokenKind.number.Spells "1".toList := ⟨by decide, List.all_eq_true.1 rfl⟩
  simp only [farDeclaration, fitting_cons]
  exact ⟨.inr rfl, .inl rfl, .inr rfl, .inr hdigits, .inr rfl, .inr rfl, .inl rfl, fitting_nil⟩

theorem program_farDeclaration (offset : Int) :
    ∃ name p, Parse.program (.ofTokens (farDeclaration offset)) =
      .error (.redeclared name ⟨.ident, "x", ⟨offset, offset + 1⟩⟩) p :=
  ⟨_, _, rfl⟩

theorem fitting_strayTokens (offset : Int) : Fitting (strayTokens offset) := by
  have hspells : TokenKind.semicolon.Spells ";".toList := rfl
  simp only [strayTokens, fitting_cons]
  exact ⟨.inr hspells, fitting_nil⟩

/-- Where the first declaration stands too far out, nothing says which name is declared again; and
where a token stands too far out, nothing says that it begins no statement. -/
theorem first_fault_withheld :
    (Fitting (farDeclaration Decimal.firstTooLong) ∧
      ∃ fault p, Parse.program (.ofTokens (farDeclaration Decimal.firstTooLong)) = .error fault p ∧
        ∀ k, ¬ ReportedAt (farDeclaration Decimal.firstTooLong) k
          (fault.reported none (farDeclaration Decimal.firstTooLong)) p.index) ∧
    Fitting (strayTokens (Decimal.firstTooLong - 1)) ∧
      ∃ fault p, Parse.program (.ofTokens (strayTokens (Decimal.firstTooLong - 1))) =
          .error fault p ∧
        ∀ k, ¬ ReportedAt (strayTokens (Decimal.firstTooLong - 1)) k
          (fault.reported (some (.ofText "")) (strayTokens (Decimal.firstTooLong - 1)))
          p.index := by
  have hlong := not_fits_firstTooLong
  have hpos : 0 < Decimal.firstTooLong := lt_firstTooLong (by decide)
  generalize Decimal.firstTooLong = bound at hlong hpos ⊢
  obtain ⟨name, p, hdeclaration⟩ := program_farDeclaration bound
  obtain ⟨p', hstray⟩ := program_strayTokens (bound - 1)
  refine ⟨⟨fitting_farDeclaration _, _, p, hdeclaration, fun k h => h.ne_integerTooLong ?_⟩,
    fitting_strayTokens _, _, p', hstray, fun k h => h.ne_integerTooLong ?_⟩
  · exact ParseFault.reported_redeclared_of_not_fits name hlong
  · refine reported_stray_of_not_fits (by omega) ?_
    rwa [Int.sub_add_cancel]

end LetPrint
