import LetPrint.Proofs.RenamedRuns
import LetPrint.Proofs.Reports

/-! What the places of tokens matter for: nothing but the words of messages, and whether there are
any.

`unplaced` forgets where the tokens of a list, a tree, a parser or a fault stand. What is left
is a copy that differs in places only, so forgetting commutes with what the parser does
(`unplaces_program`); and neither the instructions of a program nor its runs know of places
(`Program.code_unplaced`, `Eval.interpret_unplaced`). So tokens that agree in kind and text
are parsed alike wherever they stand, and whatever source they are taken to come from; and
texts with such tokens mean the same. A fault about tokens that stand too far out is not
reported in words (`meaning_without_places`, `meaning_without_places_withheld`). -/
namespace LetPrint
open Text

/-! ### Forgetting places -/

/-- The token at no place. -/
def Token.unplaced (t : Token) : Token :=
  {t with span := ⟨0, 0⟩}

/-- The expression with all its parts at no place. -/
def Expr.unplaced : Expr → Expr
  | literal value _ => .literal value ⟨0, 0⟩
  | var name _ => .var name.unplaced ⟨0, 0⟩
  | binary left op right _ => .binary left.unplaced op right.unplaced ⟨0, 0⟩

def Stmt.unplaced : Stmt → Stmt
  | letStmt name value _ => .letStmt name.unplaced value.unplaced ⟨0, 0⟩
  | printStmt value _ => .printStmt value.unplaced ⟨0, 0⟩

def Program.unplaced (program : Program) : Program :=
  program.map Stmt.unplaced

def ParseEvent.unplaced (event : ParseEvent) : ParseEvent :=
  {event with token := event.token.unplaced}

/-- The fault with all its tokens at no place. -/
def ParseFault.unplaced : ParseFault → ParseFault
  | unexpected expected found => .unexpected expected (found.map Token.unplaced)
  | redeclared name first => .redeclared name.unplaced first.unplaced
  | undeclared name => .undeclared name.unplaced
  | fault => fault

/-- The table with every value changed in the same way. -/
def Bindings.mapValues {α β : Type} (f : α → β) (b : Bindings α) : Bindings β :=
  ⟨b.entries.map fun entry => (entry.1, f entry.2)⟩

/-- The parser with all its tokens at no place. -/
def Parser.unplaced (p : Parser) : Parser where
  tokens := p.tokens.map Token.unplaced
  index := p.index
  rest := p.rest.map Token.unplaced
  symbols := p.symbols.mapValues Token.unplaced
  events := p.events.map ParseEvent.unplaced

theorem Bindings.names_mapValues {α β : Type} (f : α → β) (b : Bindings α) :
    (b.mapValues f).names = b.names := by
  rw [names, mapValues, List.map_map]
  rfl

/-! ### Parsing without places -/

/-- Places are forgotten, names stay. -/
def Copying.unplacing : Copying :=
  ⟨id, fun _ => 0⟩

section Unplacing
open Copying

theorem Token.copy_unplacing : copy unplacing = unplaced := by
  funext t
  show (⟨t.kind, if t.kind = .ident then t.raw else t.raw, ⟨0, 0⟩⟩ : Token) = _
  rw [ite_self]
  rfl

theorem Expr.copy_unplacing : copy unplacing = unplaced := by
  funext e
  induction e with
  | literal => rfl
  | var => rfl
  | binary left op right span ihl ihr => rw [copy, unplaced, ihl, ihr]; rfl

theorem Stmt.copy_unplacing : copy unplacing = unplaced := by
  funext s
  cases s with
  | letStmt => rw [copy, unplaced, Expr.copy_unplacing]; rfl
  | printStmt => rw [copy, unplaced, Expr.copy_unplacing]; rfl

theorem Program.copy_unplacing : copy unplacing = unplaced := by
  funext program
  rw [copy, unplaced, Stmt.copy_unplacing]

theorem ParseFault.copy_unplacing : copy unplacing = unplaced := by
  funext fault
  cases fault <;> simp only [copy, unplaced, Token.copy_unplacing]
  rfl

theorem Parser.copy_unplacing : copy unplacing = unplaced := by
  funext p
  have hevent : ParseEvent.copy unplacing = ParseEvent.unplaced := by
    funext event
    rw [ParseEvent.copy, ParseEvent.unplaced, Token.copy_unplacing]
  rw [copy, unplaced, hevent, Token.copy_unplacing]
  rfl

end Unplacing

theorem Parser.ofTokens_unplaced (tokens : List Token) :
    (ofTokens tokens).unplaced = ofTokens (tokens.map Token.unplaced) := by
  rw [← copy_unplacing, ofTokens_copy, Token.copy_unplacing]

namespace Parse

/-- What an operation came to, without places. -/
def forget {α : Type} (g : α → α) :
    EStateM.Result ParseFault Parser α → EStateM.Result ParseFault Parser α
  | .ok a p => .ok (g a) p.unplaced
  | .error fault p => .error fault.unplaced p.unplaced

/-- One operation does without places what another does with them. -/
def Unplaces {α : Type} (g : α → α) (f' f : Parse α) : Prop :=
  ∀ p, f' p.unplaced = forget g (f p)

/-- **The parser does not know where tokens stand.** -/
theorem unplaces_program : Unplaces Program.unplaced program program := by
  intro p
  have hp : p.NamedIn Set.univ := ⟨fun _ _ _ => Set.mem_univ _, fun _ _ => Set.mem_univ _⟩
  have hinj : Set.InjOn Copying.unplacing.name Set.univ := Function.injective_id.injOn
  have hcopy : program (p.copy .unplacing) =
      Copying.unplacing.parsing.result (Program.copy .unplacing) (program p) :=
    (copies_program hinj).eq hp
  rw [Parser.copy_unplacing] at hcopy
  rw [hcopy, Program.copy_unplacing]
  cases program p with
  | ok result p' =>
    show EStateM.Result.ok _ (p'.copy .unplacing) = _
    rw [Parser.copy_unplacing]
    rfl
  | error fault p' =>
    show EStateM.Result.error (fault.copy .unplacing) (p'.copy .unplacing) = _
    rw [Parser.copy_unplacing, ParseFault.copy_unplacing]
    rfl

end Parse

/-! ### Running without places -/

section Runs
variable (program : Program)

theorem Instr.renamed_id : renamed id = id := by
  funext i
  obtain ⟨op, arg⟩ := i
  rcases arg with _ | value | name | name <;> rfl

theorem Program.code_unplaced : program.unplaced.code = program.code := by
  have hid : Instr.renamed Copying.unplacing.name = id := Instr.renamed_id
  rw [← copy_unplacing, code_copy, hid, List.map_id]

/-- The evaluator, too, does the same without places: no name changes. -/
theorem Eval.interpret_unplaced (sink : Option Sink) :
    interpret sink program.unplaced.nodes ∅ = interpret sink program.nodes ∅ := by
  have hinj : Set.InjOn Copying.unplacing.name Set.univ := Function.injective_id.injOn
  have hstore : ∀ s : Store, s.renamed id = s := fun s => by
    show {s with bindings := ⟨s.bindings.entries.map id⟩} = s
    rw [List.map_id]
  have herror : ∀ error : EvalError, error.renamed id = error := fun error => by
    cases error <;> rfl
  have hcopy : interpret sink (program.copy .unplacing).nodes ∅ =
      (naming id).result id (interpret sink program.nodes ∅) :=
    interpret_copy hinj sink fun _ _ _ _ => Set.mem_univ _
  rw [← Program.copy_unplacing, hcopy]
  cases interpret sink program.nodes ∅ with
  | ok printed s => exact congrArg _ (hstore s)
  | error error s => exact congrArg₂ _ (herror error) (hstore s)

/-- A program runs alike wherever its parts stand. -/
theorem Backend.run_unplaced (backend : Backend) (sink : Option Sink) :
    backend.run sink program.unplaced = backend.run sink program := by
  cases backend with
  | vm => simp only [run, Program.generate_eq, Program.code_unplaced]
  | tree => simp only [run, runNodes, Eval.interpret_unplaced]

end Runs

/-! ### Failures without their words -/

/-- The diagnostic without its particulars in words. What they are about stays. -/
def Diagnostic.withoutDetail : Diagnostic → Diagnostic
  | lexical position _ => .lexical position ""
  | unexpected expected found _ => .unexpected expected found ""
  | naming fault identifier _ => .naming fault identifier ""
  | untranslatable nodeKind _ => .untranslatable nodeKind ""
  | machine code _ => .machine code ""
  | evaluation code _ => .evaluation code ""
  | general code _ => .general code ""

def Failure.withoutDetail : Failure → Failure
  | diagnostic d => .diagnostic d.withoutDetail
  | failure => failure

/-- Places and the source matter to a failure for its particulars in words only. -/
theorem ParseFault.failure_unplaced (fault : ParseFault) (source : Option Source)
    (tokens : List Token) :
    (fault.failure source tokens).withoutDetail =
      (fault.unplaced.failure none []).withoutDetail := by
  cases fault with
  | unexpected expected found => cases found <;> rfl
  | _ => rfl

/-! ### Tokens that agree -/

theorem Token.map_unplaced_of_content {tokens tokens' : List Token}
    (h : tokens.map content = tokens'.map content) :
    tokens.map unplaced = tokens'.map unplaced := by
  have hcomp : unplaced = (fun c : TokenKind × String => ⟨c.1, c.2, ⟨0, 0⟩⟩) ∘ content := rfl
  rw [hcomp, ← List.map_map, ← List.map_map, h]

/-- How a fault is reported, of which is known what the report says but for the words: as that, if
it can be put in words, and otherwise as a failure to do so. -/
structure ReportsAs (source : Option Source) (tokens : List Token) (fault : ParseFault)
    (known : Failure) : Prop where
  told : fault.Tellable source tokens → (fault.reported source tokens).withoutDetail = known
  untold : ¬ fault.Tellable source tokens → (fault.reported source tokens).TooLong

/-- Two outcomes of parsing, each with the source that its tokens are taken to come from. Both
are programs, equal but for places and with the same instructions; or both are the same fault but
for places, and the reports say the same but for the words. Either way the parsers are at the same
place and know the same names. -/
inductive ParsedAlike (source source' : Option Source) (tokens tokens' : List Token) :
    EStateM.Result ParseFault Parser Program → EStateM.Result ParseFault Parser Program → Prop
  | programs {program program' : Program} {p p' : Parser} {code : List Instr} :
    program.unplaced = program'.unplaced →
    program.generate = .ok code → program'.generate = .ok code →
    p.index = p'.index → p.symbols.names = p'.symbols.names →
      ParsedAlike source source' tokens tokens' (.ok program p) (.ok program' p')
  | faults {fault fault' : ParseFault} {p p' : Parser} {known : Failure} :
    fault.unplaced = fault'.unplaced →
    ReportsAs source tokens fault known → ReportsAs source' tokens' fault' known →
    p.index = p'.index → p.symbols.names = p'.symbols.names →
      ParsedAlike source source' tokens tokens' (.error fault p) (.error fault' p')

/-- Two texts with the same meaning. Both compile to the same instructions and their runs
report the same, on every backend and with every sink; or both are refused, for the same
reason but for the words. -/
inductive MeansSame (text text' : String) : Prop
  | programs {code : List Instr} : compileText text = .ok code → compileText text' = .ok code →
    (∀ backend sink, runText text backend sink = runText text' backend sink) →
      MeansSame text text'
  | refusals {failure failure' : Failure} : compileText text = .error failure →
    compileText text' = .error failure' → failure.withoutDetail = failure'.withoutDetail →
      MeansSame text text'

section Agreement
variable {text text' : String} {tokens tokens' : List Token} {program program' : Program}
variable {p p' : Parser}

theorem index_eq_of_unplaced (h : p.unplaced = p'.unplaced) : p.index = p'.index := by
  have hindex : p.unplaced.index = p'.unplaced.index := by rw [h]
  exact hindex

theorem names_eq_of_unplaced (h : p.unplaced = p'.unplaced) :
    p.symbols.names = p'.symbols.names := by
  have hsymbols : p.symbols.mapValues Token.unplaced = p'.symbols.mapValues Token.unplaced :=
    congrArg Parser.symbols h
  rw [← Bindings.names_mapValues Token.unplaced p.symbols, hsymbols, Bindings.names_mapValues]

theorem code_eq_of_unplaced (h : program.unplaced = program'.unplaced) :
    program.code = program'.code := by
  rw [← program.code_unplaced, h, program'.code_unplaced]

/-- A fault is reported as what it is without places. -/
theorem ParseFault.reportsAs (fault : ParseFault) (source : Option Source) (tokens : List Token) :
    ReportsAs source tokens fault (fault.unplaced.failure none []).withoutDetail := by
  constructor
  case told =>
    intro h
    rw [reported_of_tellable h, failure_unplaced]
  case untold => exact reported_of_not_tellable

/-- **Tokens that agree are parsed alike**, whatever source they are taken to come from. -/
theorem parsedAlike (h : tokens.map Token.content = tokens'.map Token.content)
    (source source' : Option Source) :
    ParsedAlike source source' tokens tokens' (Parse.program (.ofTokens tokens))
      (Parse.program (.ofTokens tokens')) := by
  have hforget : Parse.forget Program.unplaced (Parse.program (.ofTokens tokens)) =
      Parse.forget Program.unplaced (Parse.program (.ofTokens tokens')) := by
    rw [← Parse.unplaces_program, ← Parse.unplaces_program, Parser.ofTokens_unplaced,
      Parser.ofTokens_unplaced, Token.map_unplaced_of_content h]
  cases hrun : Parse.program (.ofTokens tokens) with
  | ok program p =>
    cases hrun' : Parse.program (.ofTokens tokens') with
    | error fault p' =>
      rw [hrun, hrun'] at hforget
      cases hforget
    | ok program' p' =>
      rw [hrun, hrun'] at hforget
      obtain ⟨hprogram, hparser⟩ := EStateM.Result.ok.inj hforget
      refine .programs hprogram program.generate_eq ?_ (index_eq_of_unplaced hparser)
        (names_eq_of_unplaced hparser)
      rw [program'.generate_eq, code_eq_of_unplaced hprogram]
  | error fault p =>
    cases hrun' : Parse.program (.ofTokens tokens') with
    | ok program' p' =>
      rw [hrun, hrun'] at hforget
      cases hforget
    | error fault' p' =>
      rw [hrun, hrun'] at hforget
      obtain ⟨hfault, hparser⟩ := EStateM.Result.error.inj hforget
      have hreports' := fault'.reportsAs source' tokens'
      rw [← hfault] at hreports'
      exact .faults hfault (fault.reportsAs source tokens) hreports' (index_eq_of_unplaced hparser)
        (names_eq_of_unplaced hparser)

theorem runText_eq_of_unplaced (h : readProgram text = .ok program)
    (h' : readProgram text' = .ok program') (heq : program.unplaced = program'.unplaced)
    (backend : String) (sink : Option Sink) :
    runText text backend sink = runText text' backend sink := by
  rw [runText, runText, h, h']
  cases Backend.ofName? backend with
  | none => rfl
  | some backend =>
    show backend.run sink program = backend.run sink program'
    rw [← backend.run_unplaced program sink, heq, backend.run_unplaced]

/-- **Texts whose tokens agree mean the same.** -/
theorem meansSame (htokens : (Lexer.ofText text).tokenize.2 = .ok tokens)
    (htokens' : (Lexer.ofText text').tokenize.2 = .ok tokens')
    (h : tokens.map Token.content = tokens'.map Token.content) : MeansSame text text' := by
  have hread := readProgram_of_tokenize htokens
  have hread' := readProgram_of_tokenize htokens'
  have halike := parsedAlike h (some (.ofText text)) (some (.ofText text'))
  generalize Parse.program (.ofTokens tokens) = parsed at hread halike
  generalize Parse.program (.ofTokens tokens') = parsed' at hread' halike
  cases halike with
  | @programs _ _ _ _ code hprogram hcode hcode' =>
    have hcompile : compileText text = .ok code := by
      rw [compileText, hread]
      exact hcode
    have hcompile' : compileText text' = .ok code := by
      rw [compileText, hread']
      exact hcode'
    exact .programs hcompile hcompile' (runText_eq_of_unplaced hread hread' hprogram)
  | @faults fault fault' _ _ _ hfault =>
    have hfailure := fault.failure_unplaced (some (.ofText text)) tokens
    rw [hfault, ← fault'.failure_unplaced (some (.ofText text')) tokens'] at hfailure
    refine .refusals ?_ ?_ hfailure
    · rw [compileText, hread]
      rfl
    · rw [compileText, hread']
      rfl

end Agreement

/-- **Places do not matter.** Tokens that agree in kind and text are parsed alike, wherever
they stand and whatever source they are taken to come from, and their faults are reported alike if
the reports can be put in words. Within reach of the source they can. Texts whose tokens agree mean
the same. -/
theorem meaning_without_places {tokens tokens' : List Token}
    (h : tokens.map Token.content = tokens'.map Token.content) :
    (∀ source source', ParsedAlike source source' tokens tokens'
      (Parse.program (.ofTokens tokens)) (Parse.program (.ofTokens tokens'))) ∧
    (∀ source, WithinReach source tokens → ∀ fault p,
      Parse.program (.ofTokens tokens) = .error fault p → fault.Tellable source tokens) ∧
    ∀ text text', (Lexer.ofText text).tokenize.2 = .ok tokens →
      (Lexer.ofText text').tokenize.2 = .ok tokens' → MeansSame text text' :=
  ⟨parsedAlike h, fun _ hreach _ _ hfault => tellable_of_error hreach hfault,
    fun _ _ htokens htokens' => meansSame htokens htokens' h⟩

/-- A name declared twice, as far as the second declaration. -/
def redeclaringTokens : List Token := [
  ⟨.letWord, "let", ⟨0, 3⟩⟩, ⟨.ident, "x", ⟨4, 5⟩⟩, ⟨.equals, "=", ⟨5, 6⟩⟩,
  ⟨.number, "1", ⟨6, 7⟩⟩, ⟨.semicolon, ";", ⟨7, 8⟩⟩, ⟨.letWord, "let", ⟨9, 12⟩⟩,
  ⟨.ident, "x", ⟨13, 14⟩⟩]

/-- The same tokens at places where no text has them. -/
def scatteredTokens : List Token := [
  ⟨.letWord, "let", ⟨8, -3⟩⟩, ⟨.ident, "x", ⟨-100, 5⟩⟩, ⟨.equals, "=", ⟨0, 0⟩⟩,
  ⟨.number, "1", ⟨6, 70⟩⟩, ⟨.semicolon, ";", ⟨7, 7⟩⟩, ⟨.letWord, "let", ⟨2, 1⟩⟩,
  ⟨.ident, "x", ⟨900, -900⟩⟩]

/-- The tokens of a statement in the text `print(1);`. -/
def tightTokens : List Token := [
  ⟨.printWord, "print", ⟨0, 5⟩⟩, ⟨.openParen, "(", ⟨5, 6⟩⟩, ⟨.number, "1", ⟨6, 7⟩⟩,
  ⟨.closeParen, ")", ⟨7, 8⟩⟩, ⟨.semicolon, ";", ⟨8, 9⟩⟩]

/-- The tokens of that statement over two lines. -/
def looseTokens : List Token := [
  ⟨.printWord, "print", ⟨0, 5⟩⟩, ⟨.openParen, "(", ⟨6, 7⟩⟩, ⟨.number, "1", ⟨8, 9⟩⟩,
  ⟨.closeParen, ")", ⟨10, 11⟩⟩, ⟨.semicolon, ";", ⟨13, 14⟩⟩]

theorem meaning_without_places_scatteredTokens :
    scatteredTokens.map Token.content = redeclaringTokens.map Token.content ∧
      ParsedAlike (some (.ofText "print(2);")) none scatteredTokens redeclaringTokens
        (Parse.program (.ofTokens scatteredTokens)) (Parse.program (.ofTokens redeclaringTokens)) ∧
      WithinReach (some (.ofText "print(2);")) scatteredTokens ∧
      (∃ fault p, Parse.program (.ofTokens scatteredTokens) = .error fault p ∧
        fault.Tellable (some (.ofText "print(2);")) scatteredTokens) ∧
      (Lexer.ofText "print(1);").tokenize.2 = .ok tightTokens ∧
      (Lexer.ofText "print ( 1 ) \n;").tokenize.2 = .ok looseTokens ∧
      tightTokens.map Token.content = looseTokens.map Token.content ∧
      MeansSame "print(1);" "print ( 1 ) \n;" := by
  have hparsed : scatteredTokens.map Token.content = redeclaringTokens.map Token.content := by
    decide
  have htight : (Lexer.ofText "print(1);").tokenize.2 = .ok tightTokens := by decide +kernel
  have hloose : (Lexer.ofText "print ( 1 ) \n;").tokenize.2 = .ok looseTokens := by decide +kernel
  have hagree : tightTokens.map Token.content = looseTokens.map Token.content := by decide
  have hreach : WithinReach (some (.ofText "print(2);")) scatteredTokens := by
    constructor
    · rintro _ ⟨⟩
      decide
    · decide
  obtain ⟨fault, p, hfault⟩ :
      ∃ fault p, Parse.program (.ofTokens scatteredTokens) = .error fault p := ⟨_, _, rfl⟩
  obtain ⟨halike, htellable, _⟩ := meaning_without_places hparsed
  obtain ⟨_, _, hmeans⟩ := meaning_without_places hagree
  exact ⟨hparsed, halike _ none, hreach, ⟨fault, p, hfault, htellable _ hreach fault p hfault⟩,
    htight, hloose, hagree, hmeans _ _ htight hloose⟩

/-- One token is reported, without a source, for what it is. At other places, with the source of
another text, only a failure to make a text is reported: of the column, or of the row with the
caret. -/
theorem meaning_without_places_withheld :
    (∃ fault p, Parse.program (.ofTokens (strayTokens 0)) = .error fault p ∧
      (fault.reported none (strayTokens 0)).withoutDetail =
        .diagnostic (.unexpected "'let' or 'print'" "';'" "")) ∧
    (strayTokens (Decimal.firstTooLong - 1)).map Token.content =
        (strayTokens 0).map Token.content ∧
      (∃ fault p, Parse.program (.ofTokens (strayTokens (Decimal.firstTooLong - 1))) =
          .error fault p ∧
        fault.reported (some (.ofText "")) (strayTokens (Decimal.firstTooLong - 1)) =
          .integerTooLong) ∧
    (strayTokens lengthLimit).map Token.content = (strayTokens 0).map Token.content ∧
      ∃ fault p, Parse.program (.ofTokens (strayTokens lengthLimit)) = .error fault p ∧
        fault.reported (some (.ofText "")) (strayTokens lengthLimit) = .repetitionTooLong := by
  have hlong := not_fits_firstTooLong
  have hpos : 0 < Decimal.firstTooLong := lt_firstTooLong (by decide)
  have hfits : Decimal.fits ((lengthLimit : Int) + 1) = true :=
    fits_of_le_lengthLimit (by decide)
  generalize Decimal.firstTooLong = bound at hlong hpos ⊢
  have hcolumn : ¬ Decimal.fits ((bound : Int) - 1 + 1) = true := by
    rwa [Int.sub_add_cancel]
  obtain ⟨p, hnear⟩ := program_strayTokens 0
  obtain ⟨p', hfar⟩ := program_strayTokens (bound - 1)
  obtain ⟨p'', hfarther⟩ := program_strayTokens lengthLimit
  exact ⟨⟨_, p, hnear, rfl⟩, rfl,
    ⟨_, p', hfar, reported_stray_of_not_fits (by omega) hcolumn⟩, rfl,
    _, p'', hfarther, reported_stray_of_le (Int.natCast_nonneg _) hfits (Int.le_refl _)⟩

end LetPrint
