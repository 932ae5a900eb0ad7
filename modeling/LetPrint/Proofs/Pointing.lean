import LetPrint.Proofs.Alphabet
import LetPrint.Proofs.Carets
import LetPrint.Proofs.Declarations
import LetPrint.Proofs.FirstFault
import LetPrint.Proofs.ListingCodec
import LetPrint.Proofs.Reading

/-! Where the diagnostics about a text point.

A text that is no program is refused for one of five reasons, and each of them is about a
place of the text (`Concerns`): the first character that begins no token, the first token that
cannot stand where it stands, or the end of the last token. The diagnostic shows that place in
three lines (`Points`): the line and the column in words, the line of the text, and carets for
the characters that are meant (`refusal_points`). What is meant never reaches beyond one line,
because no token holds a line feed (`HasLine.contains`). -/
namespace LetPrint
open Text

/-! ### Texts without line feeds -/

theorem feed_not_mem_toDigits (n : Nat) : '\n' ∉ Nat.toDigits 16 n := by
  have hdigit : ∀ d < 16, '\n' ∉ Nat.toDigits 16 d := by decide
  induction n using Nat.strongRecOn with
  | _ n ih =>
    by_cases hn : n < 16
    · exact hdigit n hn
    · have hsplit : 16 * (n / 16) + n % 16 = n := Nat.div_add_mod ..
      rw [← hsplit, ← Nat.toDigits_append_toDigits (by decide) (by omega) (by omega),
        List.mem_append, not_or]
      exact ⟨ih _ (by omega), hdigit _ (by omega)⟩

theorem feed_not_mem_numberEscape (c : Char) : '\n' ∉ numberEscape c := by
  have hhex : ∀ width n, '\n' ∉ hexDigits width n := by
    intro width n
    simp [hexDigits, feed_not_mem_toDigits]
  dsimp only [numberEscape]
  split
  · simp [hhex]
  · split <;> simp [hhex]

theorem feed_not_mem_escaped (plain : Char → Bool) (c : Char) : '\n' ∉ escaped plain c := by
  unfold escaped
  split
  · decide
  · split
    · decide
    · next hfeed =>
      split
      · decide
      · split
        · decide
        · split
          · exact fun hmem => hfeed (List.mem_singleton.1 hmem).symm
          · exact feed_not_mem_numberEscape c

theorem feed_not_mem_append {front back : String} (hfront : '\n' ∉ front.toList)
    (hback : '\n' ∉ back.toList) : '\n' ∉ (front ++ back).toList := by
  rw [String.toList_append, List.mem_append]
  exact fun hmem => hmem.elim hfront hback

/-- A quoted text stands on one line. -/
theorem feed_not_mem_quoted (text : String) : '\n' ∉ (quoted text).toList := by
  have hmark : quotationMark text.toList ≠ '\n' := by
    unfold quotationMark
    split <;> decide
  rw [quoted, String.toList_ofList]
  dsimp only [quotedChars]
  simp only [List.cons_append, List.mem_cons, List.mem_append, List.mem_flatMap,
    List.not_mem_nil, or_false, not_or]
  refine ⟨hmark.symm, ?_, hmark.symm⟩
  rintro ⟨c, _, hmem⟩
  split at hmem
  · next hc =>
    simp only [List.mem_cons, List.not_mem_nil, or_false] at hmem
    rcases hmem with hmem | hmem
    · exact absurd hmem (by decide)
    · exact hmark (hc.symm.trans hmem.symm)
  · exact feed_not_mem_escaped _ _ hmem

theorem feed_not_mem_intercalate {separator : List Char} (hseparator : '\n' ∉ separator)
    {rows : List (List Char)} (h : ∀ row ∈ rows, '\n' ∉ row) :
    '\n' ∉ separator.intercalate rows := by
  induction rows with
  | nil => exact List.not_mem_nil
  | cons row rows ih =>
    obtain ⟨hrow, hrows⟩ := List.forall_mem_cons.1 h
    cases rows with
    | nil => rwa [List.intercalate_singleton]
    | cons next rows =>
      rw [List.intercalate_cons_cons, List.mem_append, List.mem_append]
      rintro ((hmem | hmem) | hmem)
      · exact hrow hmem
      · exact hseparator hmem
      · exact ih hrows hmem

theorem feed_not_mem_expectedText (kinds : List TokenKind) :
    '\n' ∉ (ParseFault.expectedText kinds).toList := by
  rw [ParseFault.expectedText, String.toList_intercalate]
  refine feed_not_mem_intercalate (by decide) fun row hrow => ?_
  simp only [List.map_map, List.mem_map] at hrow
  obtain ⟨kind, _, rfl⟩ := hrow
  cases kind <;> decide

/-- A token that the lexer could make stands on one line. -/
theorem feed_not_mem_of_spells {kind : TokenKind} {text : List Char} (h : kind.Spells text) :
    '\n' ∉ text := fun hfeed => absurd (isBlank_of_spells h '\n' hfeed) (by decide)

/-! ### Three lines that point at a place -/

/-- A detail of three lines points at an offset of a source and at the characters that begin
there. The first line tells the line and the column of the offset, counted from one, and, if any
characters are meant, the place after them. The second line has that line of the source after
its number. The third one has a caret for each of the characters, or one if none are meant, and
then the message. -/
structure Points (s : Source) (detail : String) (offset : Nat) (marked : List Char)
    (message : String) (number column : Nat) : Prop where
  number_pos : 1 ≤ number
  column_pos : 1 ≤ column
  resolves : ∃ start, s.lineStarts[number - 1]? = some start ∧ offset = start + (column - 1)
  position : s.position offset = ⟨number, column⟩
  rows : fedLines detail.toList =
    [ "At ".toList ++ Position.chars ⟨number, column⟩ ++
        (if marked = [] then []
          else '-' :: Position.chars ⟨number, (column + marked.length : Nat)⟩),
      ' ' :: Decimal.rightAligned 4 (Decimal.chars number) ++ " | ".toList ++ s.line number,
      "      | ".toList ++ List.replicate (column - 1) ' ' ++
        List.replicate (max 1 marked.length) '^' ++ ' ' :: message.toList ]
  /-- The characters of that line at the columns of the carets are those that are meant. -/
  spells : ((s.line number).drop (column - 1)).take marked.length = marked

section Rows
variable {cs line marked : List Char} {number start offset : Nat}

/-- Characters without a line feed that begin in a line lie in that line. -/
theorem HasLine.contains (h : HasLine cs number start line) (hfrom : start ≤ offset)
    (hto : offset ≤ start + line.length) (hmarked : (cs.drop offset).take marked.length = marked)
    (hfeed : '\n' ∉ marked) :
    offset + marked.length ≤ start + line.length ∧
      (line.drop (offset - start)).take marked.length = marked := by
  cases h with
  | @mk before line after _ _ hafter =>
    obtain ⟨k, rfl⟩ := Nat.exists_eq_add_of_le hfrom
    have hk : k ≤ line.length := by omega
    rw [List.drop_length_add_append, List.drop_append_of_le_length hk] at hmarked
    rw [Nat.add_sub_cancel_left]
    have hlength : (line.drop k).length = line.length - k := List.length_drop
    by_cases hle : marked.length ≤ (line.drop k).length
    · rw [List.take_append_of_le_length hle] at hmarked
      exact ⟨by omega, hmarked⟩
    · -- What follows the line begins with a line feed, which would be among the characters.
      rw [List.take_append, List.take_of_length_le (by omega)] at hmarked
      rcases hafter with rfl | hafter
      · rw [List.take_nil, List.append_nil] at hmarked
        rw [hmarked] at hle
        exact absurd (Nat.le_refl _) hle
      · obtain ⟨rest, rfl⟩ := List.head?_eq_some_iff.1 hafter
        obtain ⟨more, hmore⟩ := Nat.exists_eq_add_of_lt (Nat.lt_of_not_le hle)
        have hcount : (line.drop k).length + more + 1 - (line.drop k).length = more + 1 := by omega
        rw [hmore, hcount, List.take_succ_cons] at hmarked
        refine absurd ?_ hfeed
        rw [← hmarked]
        exact List.mem_append_right _ (List.mem_cons_self ..)

theorem feed_not_mem_position (p : Position) : '\n' ∉ p.chars := by
  have hcolon : '\n' ≠ ':' := by decide
  rw [Position.chars, List.mem_append, List.mem_cons]
  rintro (hmem | hmem | hmem)
  · exact Decimal.feed_not_mem_chars _ hmem
  · exact hcolon hmem
  · exact Decimal.feed_not_mem_chars _ hmem

theorem feed_not_mem_header (first last : Position) : '\n' ∉ Source.header first last := by
  have hat : '\n' ∉ "At ".toList := by decide
  unfold Source.header
  rw [List.mem_append, List.mem_append]
  rintro ((hmem | hmem) | hmem)
  · exact hat hmem
  · exact feed_not_mem_position _ hmem
  · split at hmem
    · exact List.not_mem_nil hmem
    · rcases List.mem_cons.1 hmem with hmem | hmem
      · exact absurd hmem (by decide)
      · exact feed_not_mem_position _ hmem

theorem feed_not_mem_quoteGutter (number : Nat) : '\n' ∉ Source.quoteGutter number := by
  have hbar : '\n' ∉ " | ".toList := by decide
  rw [Source.quoteGutter, lineGutter, List.mem_cons, List.mem_append, Decimal.rightAligned,
    List.mem_append, List.mem_replicate]
  rintro (hmem | (⟨_, hmem⟩ | hmem) | hmem)
  · exact absurd hmem (by decide)
  · exact absurd hmem (by decide)
  · exact Decimal.feed_not_mem_chars _ hmem
  · exact hbar hmem

theorem feed_not_mem_caretRow (indent count : Int) : '\n' ∉ Source.caretRow indent count := by
  have hmargin : '\n' ∉ "      | ".toList := by decide
  unfold Source.caretRow
  rw [List.mem_append, List.mem_append, List.mem_replicate, List.mem_replicate]
  rintro ((hmem | ⟨_, hmem⟩) | ⟨_, hmem⟩)
  · exact hmargin hmem
  · exact absurd hmem (by decide)
  · exact absurd hmem (by decide)

/-- The rows of an excerpt of one line are its lines. -/
theorem HasLine.fedLines_excerpt {s : Source} {span : Span} {message : String}
    (h : HasLine s.chars number start line) (hspan : span.InLine start line)
    (hmessage : '\n' ∉ message.toList) :
    fedLines (s.excerpt span message).toList =
      [ Source.header ⟨number, span.start - start + 1⟩ ⟨number, span.stop - start + 1⟩,
        Source.quoteGutter number ++ line,
        Source.caretRow (span.start - start) (span.stop - span.start) ++
          ' ' :: message.toList ] := by
  rw [Source.excerpt, String.toList_ofList, h.excerptRows hspan]
  refine List.splitOn_intercalate '\n' ?_ (List.cons_ne_nil _ _)
  refine List.forall_mem_cons.2 ⟨feed_not_mem_header _ _, List.forall_mem_cons.2 ⟨?_,
    List.forall_mem_singleton.2 ?_⟩⟩
  · rw [List.mem_append, not_or]
    exact ⟨feed_not_mem_quoteGutter number, h.feed_not_mem⟩
  · rw [List.mem_append, List.mem_cons, not_or, not_or]
    exact ⟨feed_not_mem_caretRow _ _, by decide, hmessage⟩

/-- The place after some characters is named only if there are any. -/
theorem header_eq (number column : Nat) (marked : List Char) :
    Source.header ⟨number, column⟩ ⟨number, (column + marked.length : Nat)⟩ =
      "At ".toList ++ Position.chars ⟨number, column⟩ ++
        (if marked = [] then []
          else '-' :: Position.chars ⟨number, (column + marked.length : Nat)⟩) := by
  unfold Source.header
  by_cases hmarked : marked = []
  · subst hmarked
    have hsame : (⟨number, column⟩ : Position) =
        ⟨number, (column + ([] : List Char).length : Nat)⟩ := rfl
    rw [if_pos hsame, if_pos rfl]
  · have hpos := List.length_pos_iff.2 hmarked
    have hne : (⟨number, column⟩ : Position) ≠ ⟨number, (column + marked.length : Nat)⟩ := by
      intro heq
      have := (Position.mk.inj heq).2
      omega
    rw [if_neg hmarked, if_neg hne]

theorem caretRow_eq (indent count : Nat) :
    Source.caretRow indent count =
      "      | ".toList ++ List.replicate indent ' ' ++ List.replicate (max 1 count) '^' := by
  have hcount : (max 1 (count : Int)).toNat = max 1 count := by omega
  unfold Source.caretRow
  rw [hcount, Int.toNat_natCast]

/-- **An excerpt points at the characters that it is of**, if these and the message hold no line
feed. -/
theorem points_of_excerpt {s : Source} {message : String}
    (hwithin : offset + marked.length ≤ s.chars.length)
    (hmarked : (s.chars.drop offset).take marked.length = marked) (hfeed : '\n' ∉ marked)
    (hmessage : '\n' ∉ message.toList) :
    ∃ number column, Points s (s.excerpt ⟨offset, (offset + marked.length : Nat)⟩ message) offset
      marked message number column := by
  have hle : offset ≤ s.chars.length := by omega
  obtain ⟨number, start, line, hline, hfrom, hto⟩ := exists_hasLine hle
  obtain ⟨hcontained, hspells⟩ := hline.contains hfrom hto hmarked hfeed
  have hspan : Span.InLine ⟨offset, (offset + marked.length : Nat)⟩ start line := by
    constructor <;> dsimp only <;> omega
  have hcolumn : (offset : Int) - start + 1 = (offset - start + 1 : Nat) := by omega
  have hend : ((offset + marked.length : Nat) : Int) - start + 1 =
      (offset - start + 1 + marked.length : Nat) := by omega
  have hindent : (offset : Int) - start = (offset - start : Nat) := by omega
  have hcount : ((offset + marked.length : Nat) : Int) - offset = marked.length := by omega
  refine ⟨number, offset - start + 1, ?_⟩
  constructor
  case number_pos => exact hline.number_pos
  case column_pos => omega
  case resolves =>
    refine ⟨start, ?_, by omega⟩
    rw [s.lineStarts_eq, hline.lineStart]
  case position =>
    rw [hline.position (by omega) (by omega), hcolumn]
  case rows =>
    rw [hline.fedLines_excerpt hspan hmessage, hline.line_eq]
    dsimp only
    rw [hcolumn, hend, hindent, hcount, header_eq, caretRow_eq, Nat.add_sub_cancel]
    rfl
  case spells =>
    rw [hline.line_eq, Nat.add_sub_cancel]
    exact hspells

end Rows

/-! ### What a diagnostic is about -/

/-- What a diagnostic about a text is about: an offset, the characters that begin there and are
meant, and what is said about them. It is about the first character that begins no token, about
the token at which the tokens fail, or about the end of the last token if they fail there. -/
inductive Concerns (text : String) : Diagnostic → Nat → List Char → String → Prop
  | unknown {u : UnknownCharacter} {detail : String} : u.IsFirst text.toList →
    Concerns text (.lexical u.position detail) u.position [u.char]
      ("Unknown character " ++ quoted (String.singleton u.char))
  | ended {tokens : List Token} {last : Token} {expected detail : String} :
    (Lexer.ofText text).tokenize.2 = .ok tokens → FailsAt tokens tokens.length →
    tokens.getLast? = some last →
    Concerns text (.unexpected expected "end of input" detail) last.span.stop.toNat []
      ("expected " ++ expected ++ ", found " ++ "end of input")
  | misfit {tokens : List Token} {k : Nat} {t : Token} {expected detail : String} :
    (Lexer.ofText text).tokenize.2 = .ok tokens → FailsAt tokens k → tokens[k]? = some t →
    Concerns text (.unexpected expected ("'" ++ t.raw ++ "'") detail) t.span.start.toNat
      t.raw.toList ("expected " ++ expected ++ ", found " ++ ("'" ++ t.raw ++ "'"))
  | redeclared {tokens : List Token} {k : Nat} {t first : Token} {detail : String} :
    (Lexer.ofText text).tokenize.2 = .ok tokens → FailsAt tokens k → tokens[k]? = some t →
    firstNaming tokens t.raw = some first →
    Concerns text (.naming .redeclared t.raw detail) t.span.start.toNat t.raw.toList
      ("variable " ++ t.raw ++ " already declared at offset " ++ Decimal.write first.span.start)
  | undeclared {tokens : List Token} {k : Nat} {t : Token} {detail : String} :
    (Lexer.ofText text).tokenize.2 = .ok tokens → FailsAt tokens k → tokens[k]? = some t →
    firstNaming tokens t.raw = some t →
    Concerns text (.naming .undeclared t.raw detail) t.span.start.toNat t.raw.toList
      ("variable " ++ t.raw ++ " not declared")

section Refusals
variable {text : String} {tokens : List Token}

/-- What points at a place is no empty detail, in which the known would stand. -/
theorem Points.orElse {s : Source} {detail message : String} {offset number column : Nat}
    {marked : List Char} (h : Points s detail offset marked message number column)
    (known : String) :
    Points s (Diagnostic.orElse detail known) offset marked message number column := by
  have hne : detail ≠ "" := by
    rintro rfl
    have hlength : 1 = 3 := congrArg List.length h.rows
    exact absurd hlength (by decide)
  rw [Diagnostic.orElse, if_neg hne]
  exact h

/-- The excerpt of a token of a text points at it. -/
theorem TokensFrom.points (h : TokensFrom 0 text.toList tokens) {t : Token} (ht : t ∈ tokens)
    {message : String} (hmessage : '\n' ∉ message.toList) :
    ∃ number column, Points (.ofText text) ((Source.ofText text).excerpt t.span message)
      t.span.start.toNat t.raw.toList message number column := by
  have hwithin := h.within t ht
  have hraw : t.raw.toList = (text.toList.drop t.span.start.toNat).take
      (t.span.stop.toNat - t.span.start.toNat) := by
    rw [h.raw t ht, Span.slice, List.drop_take]
  have hlength : t.raw.toList.length = t.span.stop.toNat - t.span.start.toNat := by
    rw [hraw, List.length_take, List.length_drop]
    omega
  have hspan : t.span =
      ⟨t.span.start.toNat, (t.span.start.toNat + t.raw.toList.length : Nat)⟩ := by
    obtain ⟨kind, raw, ⟨start, stop⟩⟩ := t
    dsimp only at hwithin hlength ⊢
    rw [Span.mk.injEq]
    omega
  have hfeed := feed_not_mem_of_spells (h.spelled t ht)
  rw [← hlength] at hraw
  have hend : t.span.start.toNat + t.raw.toList.length ≤ text.toList.length := by omega
  rw [hspan]
  exact points_of_excerpt hend hraw.symm hfeed hmessage

/-- The excerpt of an unknown character points at it. -/
theorem UnknownCharacter.IsFirst.points {u : UnknownCharacter} (h : u.IsFirst text.toList)
    {message : String} (hmessage : '\n' ∉ message.toList) :
    ∃ number column, Points (.ofText text) ((Source.ofText text).excerpt u.span message)
      u.position [u.char] message number column := by
  obtain ⟨hlt, hchar⟩ := List.getElem?_eq_some_iff.1 h.here
  have hmarked : (text.toList.drop u.position).take [u.char].length = [u.char] := by
    rw [List.drop_eq_getElem_cons hlt, hchar]
    rfl
  have hfeed : '\n' ∉ [u.char] := by
    intro hmem
    have hforeign := h.foreign
    rw [← List.mem_singleton.1 hmem] at hforeign
    exact hforeign (.inl rfl)
  have hend : u.position + [u.char].length ≤ text.toList.length := hlt
  have hspan : u.span = ⟨u.position, (u.position + [u.char].length : Nat)⟩ := rfl
  rw [hspan]
  exact points_of_excerpt hend hmarked hfeed hmessage

/-- The excerpt of the end of the tokens points at the end of the last one. -/
theorem TokensFrom.points_end (h : TokensFrom 0 text.toList tokens) {last : Token}
    (hlast : tokens.getLast? = some last) {message : String} (hmessage : '\n' ∉ message.toList) :
    ∃ number column, Points (.ofText text) ((Source.ofText text).excerpt (endSpan tokens) message)
      last.span.stop.toNat [] message number column := by
  have hwithin := h.within last (List.mem_of_getLast? hlast)
  have hspan : endSpan tokens =
      ⟨last.span.stop.toNat, (last.span.stop.toNat + ([] : List Char).length : Nat)⟩ := by
    rw [endSpan, hlast, Span.mk.injEq, List.length_nil]
    omega
  have hend : last.span.stop.toNat + ([] : List Char).length ≤ text.toList.length := by
    rw [List.length_nil]
    omega
  rw [hspan]
  exact points_of_excerpt hend rfl List.not_mem_nil hmessage

theorem feed_not_mem_expected (kinds : List TokenKind) {found : String}
    (hfound : '\n' ∉ found.toList) :
    '\n' ∉ ("expected " ++ ParseFault.expectedText kinds ++ ", found " ++ found).toList :=
  feed_not_mem_append (feed_not_mem_append (feed_not_mem_append (by decide)
    (feed_not_mem_expectedText kinds)) (by decide)) hfound

/-- Where the parser stops, it fails with a diagnostic that points there. -/
theorem Stops.points {used left : List Token} {q : Progress} {fault : ParseFault} {taken : Nat}
    (hstops : Stops q left fault taken) (hrun : Progress.start.run used = some q)
    (htokens : (Lexer.ofText text).tokenize.2 = .ok (used ++ left))
    (hcites : fault.CitesFirst (used ++ left)) :
    ∃ d offset marked message number column,
      fault.failure (some (.ofText text)) (used ++ left) = .diagnostic d ∧
        Concerns text d offset marked message ∧
        Points (.ofText text) d.detail offset marked message number column := by
  have hfrom : TokensFrom 0 text.toList (used ++ left) :=
    tokensFrom_iff_cut.2 (tokenize_eq_ok_iff.1 htokens)
  have hspelled := spelled_of_tokenize htokens
  have hfails := failsAt_of_stops (fitting_append.1 hspelled.fitting).1 hrun hstops
  have hhere : ∀ t rest, left = t :: rest → (used ++ left)[used.length]? = some t ∧
      t ∈ used ++ left ∧ '\n' ∉ t.raw.toList := by
    rintro t rest rfl
    have ht : t ∈ used ++ t :: rest := List.mem_append_right _ (List.mem_cons_self ..)
    refine ⟨?_, ht, feed_not_mem_of_spells (hspelled t ht)⟩
    rw [List.getElem?_append_right (Nat.le_refl _), Nat.sub_self]
    rfl
  cases hstops with
  | ended kinds hdue =>
    have hne : used ++ [] ≠ [] := by
      rw [List.append_nil]
      rintro rfl
      cases hrun
      exact hdue rfl
    have hlength : used.length = (used ++ []).length := by rw [List.append_nil]
    rw [hlength] at hfails
    have hlast := List.getLast?_eq_some_getLast hne
    have hfound : '\n' ∉ "end of input".toList := by decide
    obtain ⟨number, column, hpoints⟩ := hfrom.points_end hlast (feed_not_mem_expected kinds hfound)
    exact ⟨_, _, _, _, number, column, rfl, .ended htokens hfails hlast, hpoints.orElse _⟩
  | @misfit t rest kinds _ =>
    obtain ⟨hat, ht, hraw⟩ := hhere t rest rfl
    have hfound : '\n' ∉ ("'" ++ t.raw ++ "'").toList :=
      feed_not_mem_append (feed_not_mem_append (by decide) hraw) (by decide)
    obtain ⟨number, column, hpoints⟩ := hfrom.points ht (feed_not_mem_expected kinds hfound)
    exact ⟨_, _, _, _, number, column, rfl, .misfit htokens hfails hat, hpoints.orElse _⟩
  | @redeclared t rest first _ _ _ _ =>
    obtain ⟨hat, ht, hraw⟩ := hhere t rest rfl
    have hoffset : '\n' ∉ (Decimal.write first.span.start).toList := by
      rw [Decimal.write, String.toList_ofList]
      exact Decimal.feed_not_mem_chars _
    have hvariable : '\n' ∉ "variable ".toList := by decide
    have hdeclared : '\n' ∉ " already declared at offset ".toList := by decide
    have hmessage := feed_not_mem_append
      (feed_not_mem_append (feed_not_mem_append hvariable hraw) hdeclared) hoffset
    obtain ⟨number, column, hpoints⟩ := hfrom.points ht hmessage
    exact ⟨_, _, _, _, number, column, rfl, .redeclared htokens hfails hat hcites,
      hpoints.orElse _⟩
  | @undeclared t rest _ _ _ _ =>
    obtain ⟨hat, ht, hraw⟩ := hhere t rest rfl
    have hvariable : '\n' ∉ "variable ".toList := by decide
    have hnot : '\n' ∉ " not declared".toList := by decide
    have hmessage := feed_not_mem_append (feed_not_mem_append hvariable hraw) hnot
    obtain ⟨number, column, hpoints⟩ := hfrom.points ht hmessage
    exact ⟨_, _, _, _, number, column, rfl, .undeclared htokens hfails hat hcites,
      hpoints.orElse _⟩

/-- **A text that is refused** is refused with a diagnostic in three lines, which point at what it
is about. -/
theorem refusal_points {failure : Failure} (h : readProgram text = .error failure) :
    ∃ d offset marked message number column, failure = .diagnostic d ∧
      Concerns text d offset marked message ∧
      Points (.ofText text) d.detail offset marked message number column := by
  rcases readProgram_error h with ⟨u, hu, rfl⟩ | ⟨tokens, fault, p, htokens, herror, rfl⟩
  · have hfirst := tokenize_eq_error_iff.1 hu
    have hwords : '\n' ∉ "Unknown character ".toList := by decide
    have hmessage := feed_not_mem_append hwords (feed_not_mem_quoted (String.singleton u.char))
    obtain ⟨number, column, hpoints⟩ := hfirst.points hmessage
    exact ⟨_, _, _, _, number, column, rfl, .unknown hfirst, hpoints⟩
  · obtain ⟨used, left, q, taken, rfl, hrun, _, hstops⟩ :=
      Parse.program_error herror (spelled_of_tokenize htokens).fitting
    exact hstops.points hrun htokens (Parse.citesFirst_of_error herror)

end Refusals

/-- A text that declares a name in both of its lines. -/
def twiceDeclaredText : String :=
  "let x = 1;\nlet x = 2;"

def twiceDeclared : Diagnostic :=
  .naming .redeclared "x"
    "At 2:5-2:6\n    2 | let x = 2;\n      |     ^ variable x already declared at offset 4"

theorem refusal_points_twiceDeclaredText :
    readProgram twiceDeclaredText = .error (.diagnostic twiceDeclared) ∧
      ∃ offset marked message number column,
        Concerns twiceDeclaredText twiceDeclared offset marked message ∧
        Points (.ofText twiceDeclaredText) twiceDeclared.detail offset marked message number
          column := by
  have h : readProgram twiceDeclaredText = .error (.diagnostic twiceDeclared) := by
    decide +kernel
  obtain ⟨d, offset, marked, message, number, column, heq, hconcerns, hpoints⟩ := refusal_points h
  cases heq
  exact ⟨h, offset, marked, message, number, column, hconcerns, hpoints⟩

end LetPrint
