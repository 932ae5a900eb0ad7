import LetPrint.Proofs.Alphabet
import LetPrint.Proofs.Copies
import LetPrint.Proofs.LineColumns
import LetPrint.Proofs.Reading
import LetPrint.Proofs.Wording

/-! How the faults of a parser are reported.

A fault is put in words, with an excerpt of the source if that is known. That fails if the words
hold an integer too long to show, or if a row of the excerpt would be longer than a text can be
(`ParseFault.Tellable`); the parser then ends with a failure that says nothing about the tokens
(`reported_of_not_tellable`).

Only tokens put together by hand can stand so far out. A fault knows no offsets but those of the
tokens (`offsets_of_error`), so with tokens within reach of their source it is told
(`tellable_of_error`). The tokens of a text are within reach, because a text has an end: whatever is
wrong with a text is reported in words (`reported_of_tokenize`, `excerpt?_of_tokenize`). -/
namespace LetPrint
open Text

/-- A failure to make a text, because of how long it would be. -/
def Failure.TooLong (failure : Failure) : Prop :=
  failure = .integerTooLong ∨ failure = .repetitionTooLong

/-- There is an excerpt of a span: the numbers in it can be shown, and its rows are no longer than
texts. -/
structure Source.Shows (s : Source) (span : Span) : Prop where
  start : (s.position span.start).fits = true
  stop : (s.position span.stop).fits = true
  rows : ∀ count ∈ s.repetitions span, canRepeat count = true

/-- A fault that can be put in words. -/
structure ParseFault.Tellable (source : Option Source) (tokens : List Token) (fault : ParseFault) :
    Prop where
  cited : ∀ offset ∈ fault.citedOffsets, Decimal.fits offset = true
  shown : ∀ s ∈ source, ∀ span ∈ fault.place? tokens, s.Shows span

/-! ### Faults in words -/

section Obstacles
variable {s : Source} {span : Span} {source : Option Source} {tokens : List Token}
variable {fault : ParseFault}

theorem Source.obstacle?_of_shows (h : s.Shows span) : s.obstacle? span = none := by
  have hplaces : ((s.position span.start).fits && (s.position span.stop).fits) = true := by
    rw [h.start, h.stop, Bool.and_self]
  have hrows : (s.repetitions span).all canRepeat = true := by
    rw [List.all_eq_true]
    exact h.rows
  rw [obstacle?, if_pos hplaces, if_pos hrows]

theorem Source.obstacle?_of_not_shows (h : ¬ s.Shows span) :
    ∃ failure, s.obstacle? span = some failure ∧ failure.TooLong := by
  rw [obstacle?]
  by_cases hplaces : ((s.position span.start).fits && (s.position span.stop).fits) = true
  · have hrows : ¬ (s.repetitions span).all canRepeat = true := by
      rw [Bool.and_eq_true] at hplaces
      rw [List.all_eq_true]
      exact fun hrows => h ⟨hplaces.1, hplaces.2, hrows⟩
    exact ⟨_, by rw [if_pos hplaces, if_neg hrows], .inr rfl⟩
  · exact ⟨_, by rw [if_neg hplaces], .inl rfl⟩

theorem Source.excerpt?_of_shows (h : s.Shows span) (message : String) :
    s.excerpt? span message = .ok (s.excerpt span message) := by
  rw [excerpt?, obstacle?_of_shows h, Option.elim_none]

namespace ParseFault

theorem obstacle?_of_tellable (h : fault.Tellable source tokens) :
    fault.obstacle? source tokens = none := by
  have hcited : fault.citedOffsets.all Decimal.fits = true := by
    rw [List.all_eq_true]
    exact h.cited
  rw [obstacle?, if_pos hcited, Option.bind_eq_none_iff]
  intro s hs
  rw [Option.bind_eq_none_iff]
  exact fun span hspan => Source.obstacle?_of_shows (h.shown s hs span hspan)

theorem obstacle?_of_not_tellable (h : ¬ fault.Tellable source tokens) :
    ∃ failure, fault.obstacle? source tokens = some failure ∧ failure.TooLong := by
  rw [obstacle?]
  by_cases hcited : fault.citedOffsets.all Decimal.fits = true
  · have hhidden : ∃ s ∈ source, ∃ span ∈ fault.place? tokens, ¬ s.Shows span := by
      by_contra hnone
      push Not at hnone
      rw [List.all_eq_true] at hcited
      exact h ⟨hcited, hnone⟩
    obtain ⟨s, hs, span, hspan, hshows⟩ := hhidden
    obtain ⟨failure, hobstacle, hlong⟩ := Source.obstacle?_of_not_shows hshows
    refine ⟨failure, ?_, hlong⟩
    rw [if_pos hcited, hs, hspan, Option.bind_some, Option.bind_some, hobstacle]
  · exact ⟨_, by rw [if_neg hcited], .inl rfl⟩

theorem tooLong_of_obstacle? {failure : Failure}
    (h : fault.obstacle? source tokens = some failure) : failure.TooLong := by
  have huntold : ¬ fault.Tellable source tokens := by
    intro htold
    rw [obstacle?_of_tellable htold] at h
    cases h
  obtain ⟨other, hother, hlong⟩ := obstacle?_of_not_tellable huntold
  rw [h] at hother
  cases hother
  exact hlong

/-- **A fault that can be put in words is reported in words.** -/
theorem reported_of_tellable (h : fault.Tellable source tokens) :
    fault.reported source tokens = fault.failure source tokens := by
  rw [reported, obstacle?_of_tellable h, Option.getD_none]

/-- **Of any other fault there is no report**, but a failure to make one. -/
theorem reported_of_not_tellable (h : ¬ fault.Tellable source tokens) :
    (fault.reported source tokens).TooLong := by
  obtain ⟨failure, hobstacle, hlong⟩ := obstacle?_of_not_tellable h
  rw [reported, hobstacle, Option.getD_some]
  exact hlong

/-- A declaration that stands too far out cannot be cited. -/
theorem reported_redeclared_of_not_fits (name : Token) {first : Token}
    (h : ¬ Decimal.fits first.span.start = true) :
    (redeclared name first).reported source tokens = .integerTooLong := by
  have hcited : ¬ (redeclared name first).citedOffsets.all Decimal.fits = true := by
    rw [List.all_eq_true]
    exact fun hall => h (hall _ (List.mem_singleton_self _))
  rw [reported, obstacle?, if_neg hcited, Option.getD_some]

end ParseFault

end Obstacles

/-! ### What is within reach of a source -/

/-- An offset less than the length of a text away from all offsets of the source. Without a source
the offset itself is less than that. -/
def InReach (source : Option Source) (offset : Int) : Prop :=
  (source.elim 0 fun s => s.chars.length : Nat) - (lengthLimit : Int) < offset ∧
    offset < lengthLimit

instance (source : Option Source) : DecidablePred (InReach source) := fun _ =>
  inferInstanceAs (Decidable (_ ∧ _))

/-- Tokens that do not stand far out, and a source that is no longer than a text. -/
structure WithinReach (source : Option Source) (tokens : List Token) : Prop where
  length : ∀ s ∈ source, s.chars.length < lengthLimit
  tokens : ∀ t ∈ tokens, InReach source t.span.start ∧ InReach source t.span.stop

theorem canRepeat_iff {count : Int} :
    canRepeat count = true ↔ -(lengthLimit : Int) ≤ count ∧ count < lengthLimit := by
  rw [canRepeat, Bool.and_eq_true, decide_eq_true_iff, decide_eq_true_iff]

section Positions
variable (s : Source)

theorem Source.le_of_mem_lineStarts {start : Nat} (h : start ∈ s.lineStarts) :
    start ≤ s.chars.length := by
  rw [s.lineStarts_eq, lineStartsOf] at h
  rcases List.mem_cons.1 h with rfl | h
  · exact Nat.zero_le _
  · have := (mem_offsetsAfterFeeds h).2
    omega

theorem Source.length_lineStarts_le : s.lineStarts.length ≤ s.chars.length + 1 := by
  rw [s.lineStarts_eq, lineStartsOf, List.length_cons, length_offsetsAfterFeeds]
  exact Nat.succ_le_succ List.count_le_length

/-- Where an offset is: in line zero if it is before the text, and otherwise in a line that starts
no later. -/
theorem Source.position_eq (offset : Int) :
    ∃ number start : Nat, s.position offset = ⟨number, offset - start + 1⟩ ∧
      number ≤ s.chars.length + 1 ∧ start ≤ s.chars.length ∧
      (0 ≤ offset → 1 ≤ number ∧ start ≤ offset) ∧ (offset < 0 → number = 0) := by
  have hhead : s.lineStarts = 0 :: offsetsAfterFeeds 0 s.chars := s.lineStarts_eq
  generalize hupTo : s.lineStarts.takeWhile (fun start : Nat => (start : Int) ≤ offset) = upTo
  have hmem : ∀ start ∈ upTo, start ∈ s.lineStarts ∧ (start : Int) ≤ offset := by
    intro start hstart
    rw [← hupTo] at hstart
    have hle := List.mem_takeWhile_imp hstart
    exact ⟨(List.takeWhile_sublist _).subset hstart, of_decide_eq_true hle⟩
  have hcount : upTo.length ≤ s.chars.length + 1 := by
    rw [← hupTo]
    exact Nat.le_trans (List.takeWhile_sublist _).length_le s.length_lineStarts_le
  by_cases hfrom : 0 ≤ offset
  · have hne : upTo ≠ [] := by
      rw [← hupTo, hhead, List.takeWhile_cons_of_pos]
      · exact List.cons_ne_nil _ _
      · exact decide_eq_true hfrom
    obtain ⟨hstart, hle⟩ := hmem _ (List.getLast_mem hne)
    refine ⟨upTo.length, upTo.getLast hne, ?_, hcount, s.le_of_mem_lineStarts hstart,
      fun _ => ⟨List.length_pos_iff.2 hne, hle⟩, fun h => absurd hfrom (Int.not_le.2 h)⟩
    simp only [position, hupTo, List.getLast?_eq_getLast_of_ne_nil hne, Option.some_or,
      Option.getD_some]
  · have hnil : upTo = [] := by
      rw [← hupTo, hhead, List.takeWhile_cons_of_neg]
      exact mt of_decide_eq_true hfrom
    have hne : s.lineStarts ≠ [] := by
      rw [hhead]
      exact List.cons_ne_nil _ _
    refine ⟨0, s.lineStarts.getLast hne, ?_, Nat.zero_le _,
      s.le_of_mem_lineStarts (List.getLast_mem hne), fun h => absurd h hfrom, fun _ => rfl⟩
    simp only [position, hupTo, hnil, List.getLast?_nil, Option.none_or,
      List.getLast?_eq_getLast_of_ne_nil hne, Option.getD_some, List.length_nil]

theorem Source.length_line_le (number : Int) : (s.line number).length ≤ s.chars.length := by
  rw [line]
  split
  · exact Nat.zero_le _
  · cases hline : s.lines[(number - 1).toNat]? with
    | none => exact Nat.zero_le _
    | some line =>
      obtain ⟨start, hhere⟩ := hasLine_of_fedLines hline
      exact Nat.le_trans (Nat.le_add_left _ _) hhere.stop_le

theorem Source.length_line_zero : (s.line 0).length = 0 := by
  rw [line, if_pos (by decide), List.length_nil]

/-- **What is within reach of a source is shown with an excerpt.** -/
theorem Source.shows_of_inReach {span : Span} (hlength : s.chars.length < lengthLimit)
    (hstart : InReach (some s) span.start) (hstop : InReach (some s) span.stop) :
    s.Shows span := by
  obtain ⟨number, start, hposition, hnumber, hline, hfrom, hbefore⟩ := s.position_eq span.start
  obtain ⟨number', start', hposition', hnumber', hline', hfrom', hbefore'⟩ :=
    s.position_eq span.stop
  simp only [InReach, Option.elim_some] at hstart hstop
  constructor
  case start =>
    rw [hposition, Position.fits, Bool.and_eq_true]
    dsimp only
    exact ⟨fits_of_le_lengthLimit (by omega), fits_of_le_lengthLimit (by omega)⟩
  case stop =>
    rw [hposition', Position.fits, Bool.and_eq_true]
    dsimp only
    exact ⟨fits_of_le_lengthLimit (by omega), fits_of_le_lengthLimit (by omega)⟩
  case rows =>
    have hlimit : 1 < lengthLimit := by decide
    have hfirst := s.length_line_le number
    have hlast := s.length_line_le number'
    have hnone : number = 0 → (s.line number).length = 0 := by
      rintro rfl
      exact s.length_line_zero
    rw [repetitions, hposition, hposition']
    dsimp only
    -- The counts are differences of columns, or of a column and the length of a line.
    split
    all_goals
      simp only [List.forall_mem_cons, canRepeat_iff, List.not_mem_nil, false_implies, implies_true,
        and_true]
      omega

end Positions

/-! ### Which offsets a fault knows -/

/-- The offsets at which tokens start and stop. -/
def offsetsOf (tokens : List Token) : List Int :=
  tokens.flatMap fun t => [t.span.start, t.span.stop]

/-- The tokens that a fault is about. -/
def ParseFault.tokens : ParseFault → List Token
  | unexpected _ found => found.toList
  | redeclared name first => [name, first]
  | undeclared name => [name]
  | _ => []

/-- Copies with the same names. An offset that none of the tokens has becomes another one. -/
def Copying.keeping (tokens : List Token) : Copying :=
  ⟨id, fun offset => if offset ∈ offsetsOf tokens then offset else offset + 1⟩

section Offsets
variable {tokens : List Token} {fault : ParseFault} {p : Parser} {source : Option Source}

theorem Copying.place_keeping_eq_iff {offset : Int} :
    (keeping tokens).place offset = offset ↔ offset ∈ offsetsOf tokens := by
  rw [keeping]
  dsimp only
  split
  · next hmem => exact iff_of_true rfl hmem
  · next hmem => exact iff_of_false (by omega) hmem

theorem Token.copy_keeping_eq_iff {t : Token} :
    t.copy (.keeping tokens) = t ↔
      t.span.start ∈ offsetsOf tokens ∧ t.span.stop ∈ offsetsOf tokens := by
  rw [← Copying.place_keeping_eq_iff, ← Copying.place_keeping_eq_iff]
  have hraw : (t.copy (.keeping tokens)).raw = t.raw := ite_self _
  constructor
  · intro h
    have hspan : t.span.copy (.keeping tokens) = t.span := congrArg Token.span h
    exact ⟨congrArg Span.start hspan, congrArg Span.stop hspan⟩
  · rintro ⟨hstart, hstop⟩
    have hspan : t.span.copy (.keeping tokens) = t.span := congrArg₂ Span.mk hstart hstop
    show Token.mk t.kind (t.copy (.keeping tokens)).raw (t.span.copy (.keeping tokens)) = t
    rw [hraw, hspan]

theorem ParseFault.tokens_copy (fault : ParseFault) (c : Copying) :
    (fault.copy c).tokens = fault.tokens.map (Token.copy c) := by
  cases fault with
  | unexpected kinds found => cases found <;> rfl
  | _ => rfl

/-- **A fault knows no offsets but those of the tokens.** The parser does with copies what it does
with the tokens; so if every other offset were another one, the fault would still be the same. -/
theorem offsets_of_error (h : Parse.program (.ofTokens tokens) = .error fault p) :
    ∀ t ∈ fault.tokens, t.span.start ∈ offsetsOf tokens ∧ t.span.stop ∈ offsetsOf tokens := by
  have hkept : ∀ t ∈ tokens, t.copy (.keeping tokens) = t := fun t ht =>
    Token.copy_keeping_eq_iff.2
      ⟨List.mem_flatMap.2 ⟨t, ht, by simp⟩, List.mem_flatMap.2 ⟨t, ht, by simp⟩⟩
  have htokens : tokens.map (Token.copy (.keeping tokens)) = tokens :=
    (List.map_congr_left hkept).trans (List.map_id' tokens)
  have hinj : Set.InjOn (Copying.keeping tokens).name Set.univ := Function.injective_id.injOn
  have hnames : ∀ t ∈ tokens, t.NamedIn Set.univ := fun _ _ _ => Set.mem_univ _
  have hcopy := Parse.program_copy hinj hnames
  rw [htokens, h] at hcopy
  have hfault : fault = fault.copy (.keeping tokens) := (EStateM.Result.error.inj hcopy).1
  have hsame : fault.tokens.map (Token.copy (.keeping tokens)) = fault.tokens.map id := by
    rw [← fault.tokens_copy, ← hfault, List.map_id]
  exact fun t ht => Token.copy_keeping_eq_iff.1 (List.map_inj_left.1 hsame t ht)

/-- An offset of tokens within reach is within reach. -/
theorem WithinReach.offset (hreach : WithinReach source tokens) {offset : Int}
    (h : offset ∈ offsetsOf tokens) : InReach source offset := by
  obtain ⟨t, ht, hoffset⟩ := List.mem_flatMap.1 h
  obtain ⟨hstart, hstop⟩ := hreach.tokens t ht
  rcases List.mem_pair.1 hoffset with rfl | rfl
  · exact hstart
  · exact hstop

/-- The end of tokens within reach is within reach. -/
theorem WithinReach.endSpan (hreach : WithinReach source tokens) :
    InReach source (endSpan tokens).start ∧ InReach source (endSpan tokens).stop := by
  rw [LetPrint.endSpan]
  cases hlast : tokens.getLast? with
  | some last =>
    have hstop := (hreach.tokens last (List.mem_of_getLast? hlast)).2
    exact ⟨hstop, hstop⟩
  | none =>
    have hstart : InReach source 0 := by
      cases source with
      | none => exact ⟨by decide, by decide⟩
      | some s =>
        have hlength := hreach.length s rfl
        simp only [InReach, Option.elim_some]
        omega
    exact ⟨hstart, hstart⟩

/-- **Faults about tokens within reach are told.** -/
theorem tellable_of_error (hreach : WithinReach source tokens)
    (h : Parse.program (.ofTokens tokens) = .error fault p) : fault.Tellable source tokens := by
  have hinside : ∀ t ∈ fault.tokens, InReach source t.span.start ∧ InReach source t.span.stop := by
    intro t ht
    obtain ⟨hstart, hstop⟩ := offsets_of_error h t ht
    exact ⟨hreach.offset hstart, hreach.offset hstop⟩
  constructor
  case cited =>
    intro offset hoffset
    cases fault with
    | redeclared name first =>
      obtain rfl := List.mem_singleton.1 hoffset
      obtain ⟨hstart, hlt⟩ := (hinside first (by simp [ParseFault.tokens])).1
      exact fits_of_le_lengthLimit (by omega)
    | _ => cases hoffset
  case shown =>
    rintro s rfl span hspan
    have hplace : InReach (some s) span.start ∧ InReach (some s) span.stop := by
      cases fault with
      | unexpected kinds found =>
        cases hspan
        cases found with
        | none => exact hreach.endSpan
        | some t => exact hinside t (List.mem_singleton_self t)
      | redeclared name first =>
        cases hspan
        exact hinside name (List.mem_cons_self ..)
      | undeclared name =>
        cases hspan
        exact hinside name (List.mem_singleton_self name)
      | _ => cases hspan
    exact s.shows_of_inReach (hreach.length s rfl) hplace.1 hplace.2

end Offsets

/-! ### Texts -/

section Texts
variable {text : String} {tokens : List Token} {fault : ParseFault} {p : Parser}

/-- An offset of a text is within reach. -/
theorem inReach_of_le (hlength : text.toList.length < lengthLimit) {offset : Int}
    (hfrom : 0 ≤ offset) (hto : offset ≤ text.toList.length) :
    InReach (some (.ofText text)) offset := by
  have hchars : (Source.ofText text).chars = text.toList := rfl
  rw [InReach, Option.elim_some, hchars]
  omega

theorem withinReach_of_tokenize (hlength : text.toList.length < lengthLimit)
    (h : (Lexer.ofText text).tokenize.2 = .ok tokens) :
    WithinReach (some (.ofText text)) tokens := by
  have htokens : TokensFrom 0 text.toList tokens := tokensFrom_iff_cut.2 (tokenize_eq_ok_iff.1 h)
  constructor
  case length =>
    rintro _ ⟨⟩
    exact hlength
  case tokens =>
    intro t ht
    obtain ⟨hfrom, hlt, hto⟩ := htokens.within t ht
    exact ⟨inReach_of_le hlength (by omega) (by omega), inReach_of_le hlength (by omega) (by omega)⟩

/-- **A text that is no program is refused in words**: what is reported of its tokens is the
failure of the text. -/
theorem reported_of_tokenize (hlength : text.toList.length < lengthLimit)
    (htokens : (Lexer.ofText text).tokenize.2 = .ok tokens)
    (herror : Parse.program (.ofTokens tokens) = .error fault p) :
    readProgram text = .error (fault.reported (some (.ofText text)) tokens) := by
  have htold := tellable_of_error (withinReach_of_tokenize hlength htokens) herror
  rw [ParseFault.reported_of_tellable htold, readProgram_of_tokenize htokens, herror]

/-- **So is a text with an unknown character.** -/
theorem excerpt?_of_tokenize (hlength : text.toList.length < lengthLimit) {u : UnknownCharacter}
    (h : (Lexer.ofText text).tokenize.2 = .error u) (message : String) :
    (Source.ofText text).excerpt? u.span message =
      .ok ((Source.ofText text).excerpt u.span message) := by
  have hhere := (tokenize_eq_error_iff.1 h).here
  have hlt : u.position < text.toList.length := (List.getElem?_eq_some_iff.1 hhere).1
  have hstop : u.span.stop = (u.position + 1 : Nat) := rfl
  refine Source.excerpt?_of_shows (Source.shows_of_inReach _ hlength ?_ ?_) message
  · exact inReach_of_le hlength (Int.natCast_nonneg _) (Int.ofNat_le.2 (Nat.le_of_lt hlt))
  · rw [hstop]
    exact inReach_of_le hlength (Int.natCast_nonneg _) (Int.ofNat_le.2 hlt)

end Texts

/-! ### Out of reach -/

/-- A token that begins no statement, put by hand at an offset. -/
def strayTokens (offset : Int) : List Token :=
  [⟨.semicolon, ";", ⟨offset, offset⟩⟩]

def strayFault (offset : Int) : ParseFault :=
  .unexpected [.letWord, .printWord] (some ⟨.semicolon, ";", ⟨offset, offset⟩⟩)

theorem program_strayTokens (offset : Int) :
    ∃ p, Parse.program (.ofTokens (strayTokens offset)) = .error (strayFault offset) p :=
  ⟨_, rfl⟩

section Stray
variable {offset : Int}

theorem reported_stray {failure : Failure} {s : Source}
    (h : s.obstacle? ⟨offset, offset⟩ = some failure) :
    (strayFault offset).reported (some s) (strayTokens offset) = failure := by
  have hcited : (strayFault offset).citedOffsets.all Decimal.fits = true := rfl
  have hplace : (strayFault offset).place? (strayTokens offset) = some ⟨offset, offset⟩ := rfl
  rw [ParseFault.reported, ParseFault.obstacle?, if_pos hcited, hplace, Option.bind_some,
    Option.bind_some, h, Option.getD_some]

variable (hfrom : 0 ≤ offset)
include hfrom

theorem position_stray : (Source.ofText "").position offset = ⟨1, offset + 1⟩ :=
  Source.position_of_oneLine rfl hfrom

/-- A column too long to show hides what is wrong with the token. -/
theorem reported_stray_of_not_fits (hlong : ¬ Decimal.fits (offset + 1) = true) :
    (strayFault offset).reported (some (.ofText "")) (strayTokens offset) = .integerTooLong := by
  have hplaces : ((Source.ofText "").position offset).fits = false := by
    rw [position_stray hfrom, Position.fits, Bool.eq_false_iff.2 hlong, Bool.and_false]
  refine reported_stray ?_
  rw [Source.obstacle?, hplaces, Bool.and_self, if_neg Bool.false_ne_true]

/-- So does a row longer than a text can be. -/
theorem reported_stray_of_le (hfits : Decimal.fits (offset + 1) = true)
    (hlong : lengthLimit ≤ offset) :
    (strayFault offset).reported (some (.ofText "")) (strayTokens offset) = .repetitionTooLong := by
  have hline : Decimal.fits (1 : Nat) = true := fits_digit (by decide)
  have hplaces : ((Source.ofText "").position offset).fits = true := by
    rw [position_stray hfrom, Position.fits, hfits, hline, Bool.and_self]
  have hrows : ¬ ((Source.ofText "").repetitions ⟨offset, offset⟩).all canRepeat = true := by
    rw [List.all_eq_true, Source.repetitions, position_stray hfrom]
    intro h
    have hindent := (canRepeat_iff.1 (h (offset + 1 - 1) (by simp))).2
    omega
  refine reported_stray ?_
  rw [Source.obstacle?, hplaces, Bool.and_self, if_pos rfl, if_neg hrows]

end Stray

end LetPrint
