import LetPrint.Pipeline
import LetPrint.Proofs.Parsing
import LetPrint.Proofs.Tokenization

/-! What a text is read as.

The lexer makes tokens whose texts fit their kinds, and on such tokens the parser only
fails with a diagnostic of its own. So a text that is no program is refused with a
diagnostic of the lexer or of the parser, and for no other reason
(`readProgram_eq_error`). -/
namespace LetPrint

/-- A diagnostic of the lexer, of the parser, or about the names of a program. -/
inductive Diagnostic.OfReading : Diagnostic → Prop
  | lexical (position : Int) (detail : String) : OfReading (.lexical position detail)
  | unexpected (expected found detail : String) : OfReading (.unexpected expected found detail)
  | naming (fault : NameFault) (identifier detail : String) :
    OfReading (.naming fault identifier detail)

theorem Cut.spelled {offset : Nat} {cs : List Char} {tokens : List Token}
    (h : Cut offset cs tokens) : Spelled tokens := by
  induction h with
  | nil => exact fun t ht => absurd ht List.not_mem_nil
  | blank _ _ ih => exact ih
  | token hspells _ _ ih =>
    refine spelled_cons.2 ⟨?_, ih⟩
    rw [Token.placed, String.toList_ofList]
    exact hspells

/-- **The lexer's tokens are spelled.** -/
theorem spelled_of_tokenize {text : String} {tokens : List Token}
    (h : (Lexer.ofText text).tokenize.2 = .ok tokens) : Spelled tokens :=
  (tokenize_eq_ok_iff.1 h).spelled

theorem Stops.failure {q : Progress} {left : List Token} {fault : ParseFault} {taken : Nat}
    (h : Stops q left fault taken) (source : Option Source) (tokens : List Token) :
    ∃ d, fault.failure source tokens = .diagnostic d ∧ d.OfReading := by
  cases h with
  | ended => exact ⟨_, rfl, .unexpected ..⟩
  | misfit => exact ⟨_, rfl, .unexpected ..⟩
  | redeclared => exact ⟨_, rfl, .naming ..⟩
  | undeclared => exact ⟨_, rfl, .naming ..⟩

theorem Lexer.source_tokenize (text : String) :
    (ofText text).tokenize.1.source = .ofText text := by
  rw [tokenize]
  split <;> rfl

/-- A text is read as its tokens are parsed. -/
theorem readProgram_of_tokenize {text : String} {tokens : List Token}
    (h : (Lexer.ofText text).tokenize.2 = .ok tokens) :
    readProgram text =
      match Parse.program (.ofTokens tokens) with
      | .ok program _ => .ok program
      | .error fault _ => .error (fault.failure (some (.ofText text)) tokens) := by
  have hsource := Lexer.source_tokenize text
  rw [readProgram, Reading.ofText]
  cases hlexer : (Lexer.ofText text).tokenize with
  | mk lexer result =>
    rw [hlexer] at h hsource
    obtain rfl : result = .ok tokens := h
    dsimp only at hsource ⊢
    rw [hsource]
    cases Parse.program (.ofTokens tokens) <;> rfl

/-- A text that is refused holds an unknown character, or the parser fails on its tokens. -/
theorem readProgram_error {text : String} {failure : Failure}
    (h : readProgram text = .error failure) :
    (∃ u : UnknownCharacter, (Lexer.ofText text).tokenize.2 = .error u ∧
      failure = .diagnostic (u.diagnostic (.ofText text))) ∨
    ∃ tokens fault p, (Lexer.ofText text).tokenize.2 = .ok tokens ∧
      Parse.program (.ofTokens tokens) = .error fault p ∧
      failure = fault.failure (some (.ofText text)) tokens := by
  have hsource := Lexer.source_tokenize text
  rw [readProgram, Reading.ofText] at h
  cases hlexer : (Lexer.ofText text).tokenize with
  | mk lexer result =>
    rw [hlexer] at h hsource
    have hsame : lexer.source = .ofText text := hsource
    cases result with
    | error unknown =>
      cases h
      exact .inl ⟨unknown, rfl, by rw [hsame]⟩
    | ok tokens =>
      dsimp only at h
      cases hprogram : Parse.program (.ofTokens tokens) with
      | ok program p =>
        rw [hprogram] at h
        cases h
      | error fault p =>
        rw [hprogram] at h
        cases h
        exact .inr ⟨tokens, fault, p, rfl, hprogram, by rw [hsame]⟩

/-- **A text that is refused** is refused by the lexer or the parser. -/
theorem readProgram_eq_error {text : String} {failure : Failure}
    (h : readProgram text = .error failure) :
    ∃ d, failure = .diagnostic d ∧ d.OfReading := by
  rcases readProgram_error h with ⟨u, _, rfl⟩ | ⟨tokens, fault, p, htokens, herror, rfl⟩
  · exact ⟨_, rfl, .lexical ..⟩
  · obtain ⟨_, left, q, taken, _, _, _, hstops⟩ :=
      Parse.program_error herror (spelled_of_tokenize htokens).fitting
    exact hstops.failure (some (.ofText text)) tokens

/-- **A text that is read** is cut into tokens, and the parser takes all of them. -/
theorem readProgram_eq_ok {text : String} {program : Program} :
    readProgram text = .ok program ↔
      ∃ tokens, (Lexer.ofText text).tokenize.2 = .ok tokens ∧
        ∃ p, Parse.program (.ofTokens tokens) = .ok program p := by
  rw [readProgram, Reading.ofText]
  cases (Lexer.ofText text).tokenize with
  | mk lexer result =>
    cases result with
    | error unknown => simp
    | ok tokens =>
      dsimp only
      cases hprogram : Parse.program (.ofTokens tokens) with
      | ok found p => simp [hprogram]
      | error fault p => simp [hprogram]

end LetPrint
