import LetPrint.Proofs.Relexing
import LetPrint.Proofs.SourceLines
import LetPrint.Token.Dump
import Mathlib.Data.Nat.Find

/-! Carets under a source line.

Two outputs show a line of the source with carets under some of its characters: the excerpt of a
diagnostic and the gutter dump of the tokens. In both the line stands after its number, which is
padded to four digits, and the carets stand after a margin that is always the same. So a caret
is under the character that it is for exactly if the gutter is as long as the margin, and that is
so up to line 9999 (`carets_line_up_iff`). From line 10000 on, every caret is too far to the left
(`carets_shifted`). -/
namespace LetPrint
open Text

/-- The carets of a row stand where the row above has certain characters. That row shows, after a
gutter, the line that starts at an offset. -/
def CaretsUnder (marked : Nat → Prop) (start : Nat) (gutter carets : List Char) : Prop :=
  ∀ i, carets[i]? = some '^' ↔ ∃ offset, marked offset ∧ i = gutter.length + (offset - start)

/-- A span lies in the line that starts at an offset. It may be empty and stand at its end. -/
structure Span.InLine (span : Span) (start : Nat) (line : List Char) : Prop where
  start_le : (start : Int) ≤ span.start
  ordered : span.start ≤ span.stop
  stop_le : span.stop ≤ start + line.length

/-- The characters that the carets of a one-line excerpt are for: those in the span, or the one
where an empty span stands. -/
def Span.Marked (span : Span) (offset : Nat) : Prop :=
  span.start ≤ offset ∧ (offset : Int) < max span.stop (span.start + 1)

/-- The characters of a line that some token covers. -/
def MarkedInLine (tokens : List Token) (start : Nat) (line : List Char) (offset : Nat) : Prop :=
  start ≤ offset ∧ offset < start + line.length ∧ ∃ t ∈ tokens, t.span.Covers offset

/-! ### Gutters and margins -/

theorem length_rightAligned (width : Nat) (text : List Char) :
    (Decimal.rightAligned width text).length = max width text.length := by
  rw [Decimal.rightAligned, List.length_append, List.length_replicate]
  omega

/-- A number is padded to four characters, and has more only from 10000 on. -/
theorem length_padded_eq_iff (number : Nat) :
    (Decimal.rightAligned 4 (Decimal.chars number)).length = 4 ↔ number < 10000 := by
  have hdigits : (Decimal.chars number).length ≤ 4 ↔ number < 10 ^ 4 :=
    Nat.length_toDigits_le_iff (by decide) (by decide)
  rw [length_rightAligned]
  omega

theorem not_mem_append_blanks {margin : List Char} (h : '^' ∉ margin) (count : Nat) :
    '^' ∉ margin ++ List.replicate count ' ' := by
  rw [List.mem_append, List.mem_replicate]
  exact fun hmem => hmem.elim h fun hblank => absurd hblank.2 (by decide)

theorem getElem?_append_carets {margin : List Char} (h : '^' ∉ margin) (count i : Nat) :
    (margin ++ List.replicate count '^')[i]? = some '^' ↔
      margin.length ≤ i ∧ i < margin.length + count := by
  rw [List.getElem?_append]
  split
  · next hlt =>
    have hne : margin[i]? ≠ some '^' := fun hi => h (List.mem_of_getElem? hi)
    exact iff_of_false hne (by omega)
  · next hge =>
    rw [List.getElem?_replicate, Option.ite_none_right_eq_some]
    simp only [and_true]
    omega

/-- Carets that stand after a margin are under their characters exactly if the gutter is as
long. -/
theorem caretsUnder_iff {marked : Nat → Prop} {start margin : Nat} {gutter carets : List Char}
    (hcarets : ∀ i, carets[i]? = some '^' ↔ ∃ offset, marked offset ∧ i = margin + (offset - start))
    (hmarked : ∃ offset, marked offset) (hstart : ∀ offset, marked offset → start ≤ offset) :
    CaretsUnder marked start gutter carets ↔ gutter.length = margin := by
  classical
  constructor
  · intro h
    -- The first caret is for the first of the characters.
    have hfirst := Nat.find_spec hmarked
    have hleast : ∀ offset, marked offset → Nat.find hmarked ≤ offset := fun _ =>
      Nat.find_min' hmarked
    have := hstart _ hfirst
    obtain ⟨offset, hoffset, hle⟩ := (h _).1 ((hcarets _).2 ⟨_, hfirst, rfl⟩)
    obtain ⟨offset', hoffset', hge⟩ := (hcarets _).1 ((h _).2 ⟨_, hfirst, rfl⟩)
    have := hleast offset hoffset
    have := hleast offset' hoffset'
    omega
  · rintro rfl
    exact hcarets

/-- What a line of the gutter dump stands after. -/
def lineGutter (number : Nat) : List Char :=
  Decimal.rightAligned 4 (Decimal.chars number) ++ " | ".toList

theorem length_lineGutter_eq_iff (number : Nat) :
    (lineGutter number).length = 7 ↔ number < 10000 := by
  have hbar : " | ".toList.length = 3 := rfl
  rw [← length_padded_eq_iff, lineGutter, List.length_append, hbar]
  omega

/-! ### Excerpts of one line -/

namespace Source

/-- What a line of an excerpt stands after. -/
def quoteGutter (number : Nat) : List Char :=
  ' ' :: lineGutter number

theorem quoteRow_eq (s : Source) (number : Nat) :
    s.quoteRow number = quoteGutter number ++ s.line number :=
  rfl

theorem length_quoteGutter_eq_iff (number : Nat) :
    (quoteGutter number).length = 8 ↔ number < 10000 := by
  rw [← length_lineGutter_eq_iff, quoteGutter, List.length_cons]
  omega

theorem getElem?_caretRow (indent count : Int) (i : Nat) :
    (caretRow indent count)[i]? = some '^' ↔
      8 + indent.toNat ≤ i ∧ i < 8 + indent.toNat + (max 1 count).toNat := by
  have hmargin : ('^' : Char) ∉ "      | ".toList := by decide
  have hlength : "      | ".toList.length = 8 := rfl
  unfold caretRow
  rw [getElem?_append_carets (not_mem_append_blanks hmargin _), List.length_append,
    List.length_replicate, hlength]

end Source

section Excerpts
variable {s : Source} {number start : Nat} {line : List Char} {span : Span}

theorem Source.chars_ofText (text : String) : (Source.ofText text).chars = text.toList :=
  rfl

/-- The excerpt of a span in one line has three rows. -/
theorem HasLine.excerptRows (h : HasLine s.chars number start line)
    (hspan : span.InLine start line) (message : List Char) :
    s.excerptRows span message =
      [ Source.header ⟨number, span.start - start + 1⟩ ⟨number, span.stop - start + 1⟩,
        Source.quoteGutter number ++ line,
        Source.caretRow (span.start - start) (span.stop - span.start) ++ ' ' :: message ] := by
  obtain ⟨hfrom, hle, hto⟩ := hspan
  have hstart := h.position hfrom (Int.le_trans hle hto)
  have hstop := h.position (Int.le_trans hfrom hle) hto
  have hindent : span.start - start + 1 - 1 = span.start - start := by omega
  have hcount : span.stop - start + 1 - (span.start - start + 1) = span.stop - span.start := by
    omega
  simp only [Source.excerptRows, hstart, hstop, if_true, Source.quoteRow_eq, h.line_eq, hindent,
    hcount]

/-- The carets of an excerpt are under the characters of the span exactly up to line 9999. -/
theorem Source.caretsUnder_caretRow (number : Nat) (hspan : span.InLine start line) :
    CaretsUnder span.Marked start (quoteGutter number)
      (caretRow (span.start - start) (span.stop - span.start)) ↔ number < 10000 := by
  obtain ⟨hfrom, hle, _⟩ := hspan
  rw [← length_quoteGutter_eq_iff]
  apply caretsUnder_iff
  case hcarets =>
    intro i
    rw [getElem?_caretRow]
    constructor
    · intro hi
      refine ⟨start + (i - 8), ?_, ?_⟩
      · unfold Span.Marked
        omega
      · omega
    · rintro ⟨offset, ⟨hge, hlt⟩, rfl⟩
      omega
  case hmarked =>
    refine ⟨span.start.toNat, ?_⟩
    unfold Span.Marked
    omega
  case hstart =>
    intro offset hoffset
    have := hoffset.1
    omega

end Excerpts

/-! ### The gutter dump -/

/-- Without its trailing blanks a row has the same other characters. -/
theorem getElem?_without_trailing_blanks {c : Char} (hc : c ≠ ' ') (row : List Char) (i : Nat) :
    (row.reverse.dropWhile (· = ' ')).reverse[i]? = some c ↔ row[i]? = some c := by
  obtain ⟨front, hfront⟩ : ∃ front, front = (row.reverse.dropWhile (· = ' ')).reverse := ⟨_, rfl⟩
  obtain ⟨blanks, hblanks⟩ : ∃ blanks, blanks = (row.reverse.takeWhile (· = ' ')).reverse :=
    ⟨_, rfl⟩
  have hsplit : row = front ++ blanks := by
    rw [hfront, hblanks, ← List.reverse_append, List.takeWhile_append_dropWhile,
      List.reverse_reverse]
  have hblank : c ∉ blanks := by
    intro hmem
    rw [hblanks, List.mem_reverse] at hmem
    have hspace := List.mem_takeWhile_imp hmem
    exact hc (of_decide_eq_true hspace)
  rw [← hfront, hsplit, List.getElem?_append]
  split
  · exact Iff.rfl
  · next hge =>
    rw [List.getElem?_eq_none (Nat.le_of_not_lt hge)]
    exact iff_of_false nofun fun h => hblank (List.mem_of_getElem? h)

section Gutters
variable (tokens : List Token) (number start : Nat) (line : List Char)

theorem covered_iff (offset : Nat) :
    covered tokens offset = true ↔ ∃ t ∈ tokens, t.span.Covers offset := by
  simp only [covered, List.any_eq_true, Bool.and_eq_true, decide_eq_true_iff, Span.Covers]

theorem markedInLine_iff (i : Nat) :
    MarkedInLine tokens start line (start + i) ↔
      i < line.length ∧ covered tokens (start + i : Nat) := by
  rw [covered_iff, MarkedInLine]
  exact ⟨fun ⟨_, hlt, h⟩ => ⟨by omega, h⟩, fun ⟨hlt, h⟩ => ⟨by omega, by omega, h⟩⟩

/-- The marks of a line are carets at the characters that some token covers. -/
theorem getElem?_markRow (i : Nat) :
    (markRow tokens start line)[i]? = some '^' ↔ MarkedInLine tokens start line (start + i) := by
  have hcaret : '^' ≠ ' ' := by decide
  rw [markRow, getElem?_without_trailing_blanks hcaret, markedInLine_iff, List.getElem?_map]
  by_cases hi : i < line.length
  · simp [hi]
  · simp [hi]

/-- There is no row of marks exactly if nothing in the line is marked. -/
theorem markRow_eq_nil_iff :
    markRow tokens start line = [] ↔ ∀ offset, ¬ MarkedInLine tokens start line offset := by
  constructor
  · intro h offset hmarked
    obtain ⟨i, rfl⟩ := Nat.exists_eq_add_of_le hmarked.1
    rw [← getElem?_markRow, h] at hmarked
    cases hmarked
  · intro h
    rw [markRow, List.reverse_eq_nil_iff, List.dropWhile_eq_nil_iff]
    simp only [List.mem_reverse, List.mem_map, List.mem_range, decide_eq_true_iff]
    rintro c ⟨i, hi, rfl⟩
    have hnot := h (start + i)
    rw [markedInLine_iff] at hnot
    exact if_neg fun hcovered => hnot ⟨hi, hcovered⟩

theorem getElem?_marginedMarks (i : Nat) :
    ("     | ".toList ++ markRow tokens start line)[i]? = some '^' ↔
      ∃ offset, MarkedInLine tokens start line offset ∧ i = 7 + (offset - start) := by
  have hmargin : ('^' : Char) ∉ "     | ".toList := by decide
  have hlength : "     | ".toList.length = 7 := rfl
  rw [List.getElem?_append, hlength]
  split
  · next hlt =>
    have hne : "     | ".toList[i]? ≠ some '^' := fun hi => hmargin (List.mem_of_getElem? hi)
    exact iff_of_false hne fun ⟨offset, _, hi⟩ => by omega
  · next hge =>
    rw [getElem?_markRow]
    constructor
    · exact fun h => ⟨_, h, by omega⟩
    · rintro ⟨offset, hmarked, rfl⟩
      have hle := hmarked.1
      rwa [Nat.add_sub_cancel_left, Nat.add_sub_cancel' hle]

/-- A line of the gutter dump, with its carets if something in it is marked. -/
theorem gutterRows_cases :
    ((∀ offset, ¬ MarkedInLine tokens start line offset) ∧
      gutterRows tokens number start line = [lineGutter number ++ line]) ∨
    ∃ carets, gutterRows tokens number start line = [lineGutter number ++ line, carets] ∧
      (CaretsUnder (MarkedInLine tokens start line) start (lineGutter number) carets ↔
        number < 10000) := by
  by_cases hmarks : markRow tokens start line = []
  · refine .inl ⟨(markRow_eq_nil_iff tokens start line).1 hmarks, ?_⟩
    rw [gutterRows, hmarks]
    rfl
  · refine .inr ⟨"     | ".toList ++ markRow tokens start line, ?_, ?_⟩
    · have hsome : (markRow tokens start line).isEmpty = false := by
        rwa [Bool.eq_false_iff, Ne, List.isEmpty_iff]
      simp only [gutterRows, hsome]
      rfl
    · rw [← length_lineGutter_eq_iff]
      rw [markRow_eq_nil_iff, not_forall_not] at hmarks
      exact caretsUnder_iff (getElem?_marginedMarks tokens start line) hmarks fun _ h => h.1

end Gutters

/-- A shown line of a source is one of its lines. -/
theorem Source.hasLine_of_shownLines {s : Source} {k : Nat} {line : List Char}
    (h : s.shownLines[k]? = some line) : ∃ start, HasLine s.chars (k + 1) start line := by
  rw [Source.shownLines] at h
  split at h
  · obtain ⟨hlt, heq⟩ := List.getElem?_eq_some_iff.1 h
    rw [List.getElem_dropLast] at heq
    exact hasLine_of_fedLines (List.getElem?_eq_some_iff.2 ⟨_, heq⟩)
  · exact hasLine_of_fedLines h

/-- It stands where the table of line starts says. -/
theorem Source.hasLine_of_start {s : Source} {k start : Nat} {line : List Char}
    (hstart : s.lineStarts[k]? = some start) (hline : s.shownLines[k]? = some line) :
    HasLine s.chars (k + 1) start line := by
  obtain ⟨start', h⟩ := Source.hasLine_of_shownLines hline
  have hsame := h.lineStart
  rw [← s.lineStarts_eq, Nat.add_sub_cancel, hstart] at hsame
  cases hsame
  exact h

theorem Source.length_shownLines_le (s : Source) :
    s.shownLines.length ≤ s.lineStarts.length := by
  rw [Source.shownLines, s.length_lineStarts]
  split
  · rw [List.length_dropLast]
    omega
  · exact Nat.le_refl _

/-- The gutter dump shows the lines of the source one after the other. -/
theorem Lexer.sourceRows_eq (l : Lexer) :
    ∃ blocks : List (List (List Char)), l.sourceRows = blocks.flatten ∧
      blocks.length = l.source.shownLines.length ∧
      ∀ k block, blocks[k]? = some block → ∃ start line,
        HasLine l.source.chars (k + 1) start line ∧
          block = gutterRows l.tokens (k + 1) start line := by
  refine ⟨_, List.flatMap_def .., ?_, ?_⟩
  · rw [List.length_map, List.length_zipIdx, List.length_zip]
    exact Nat.min_eq_left l.source.length_shownLines_le
  · intro k block hblock
    rw [List.getElem?_map, Option.map_eq_some_iff] at hblock
    obtain ⟨⟨⟨line, start⟩, number⟩, hrow, rfl⟩ := hblock
    rw [List.getElem?_zipIdx, Option.map_eq_some_iff] at hrow
    obtain ⟨⟨_, _⟩, hzip, heq⟩ := hrow
    cases heq
    obtain ⟨hline, hstart⟩ := List.getElem?_zip_eq_some.1 hzip
    refine ⟨_, _, Source.hasLine_of_start hstart hline, ?_⟩
    rw [Nat.add_comm 1]

theorem Lexer.tokens_of_tokenize {l : Lexer} {tokens : List Token}
    (h : l.tokenize.2 = .ok tokens) :
    l.tokenize.1.tokens = tokens ∧ l.tokenize.1.source = l.source := by
  rw [Lexer.tokenize] at h ⊢
  split at h
  · cases h
    exact ⟨rfl, rfl⟩
  · cases h

/-- **Carets are under their characters exactly up to line 9999**, both in the rows of an excerpt
of one line and in the rows of a gutter dump. The gutter dump shows all lines but an empty last
one, from line 1 on, and a line in which nothing is marked has no row of carets. -/
theorem carets_line_up_iff (text : String) :
    (∀ {number start : Nat} {line : List Char} {span : Span} (message : List Char),
      HasLine text.toList number start line → span.InLine start line →
      ∃ header gutter carets, (Source.ofText text).excerptRows span message =
          [header, gutter ++ line, carets ++ ' ' :: message] ∧
        (CaretsUnder span.Marked start gutter carets ↔ number < 10000)) ∧
    ∀ tokens, (Lexer.ofText text).tokenize.2 = .ok tokens →
      ∃ blocks : List (List (List Char)),
        (Lexer.ofText text).tokenize.1.sourceRows = blocks.flatten ∧
        blocks.length = (Source.ofText text).shownLines.length ∧
        ∀ k block, blocks[k]? = some block → ∃ gutter start line,
          HasLine text.toList (k + 1) start line ∧
            ((∀ offset, ¬ MarkedInLine tokens start line offset) ∧ block = [gutter ++ line] ∨
              ∃ carets, block = [gutter ++ line, carets] ∧
                (CaretsUnder (MarkedInLine tokens start line) start gutter carets ↔
                  k + 1 < 10000)) := by
  constructor
  · intro number start line span message hline hspan
    have hhere : HasLine (Source.ofText text).chars number start line := hline
    exact ⟨_, _, _, hhere.excerptRows hspan message, Source.caretsUnder_caretRow number hspan⟩
  · intro tokens htokens
    obtain ⟨hfound, hsource⟩ := Lexer.tokens_of_tokenize htokens
    obtain ⟨blocks, hrows, hlength, hblocks⟩ :=
      Lexer.sourceRows_eq (Lexer.ofText text).tokenize.1
    rw [hsource] at hlength hblocks
    rw [hfound] at hblocks
    refine ⟨blocks, hrows, hlength, fun k block hblock => ?_⟩
    obtain ⟨start, line, hline, rfl⟩ := hblocks k block hblock
    exact ⟨lineGutter (k + 1), start, line, hline, gutterRows_cases tokens (k + 1) start line⟩

/-- A text of which the second line is a statement. -/
def laterText : String :=
  "\nprint 12;"

def laterTokens : List Token :=
  [⟨.printWord, "print", ⟨1, 6⟩⟩, ⟨.number, "12", ⟨7, 9⟩⟩, ⟨.semicolon, ";", ⟨9, 10⟩⟩]

theorem hasLine_laterText : HasLine laterText.toList 2 1 "print 12;".toList := by
  have hends : ['\n'] = [] ∨ ['\n'].getLast? = some '\n' := .inr rfl
  have hline : '\n' ∉ "print 12;".toList := by decide
  exact .mk hends hline (.inl rfl)

theorem carets_line_up_iff_laterText :
    (∃ header gutter carets, (Source.ofText laterText).excerptRows ⟨7, 9⟩ ['m'] =
        [header, gutter ++ "print 12;".toList, carets ++ " m".toList] ∧
      CaretsUnder (Span.Marked ⟨7, 9⟩) 1 gutter carets) ∧
    ∃ (blocks : List (List (List Char))) (block : List (List Char)),
      (Lexer.ofText laterText).tokenize.1.sourceRows = blocks.flatten ∧
      blocks[1]? = some block ∧ ∃ gutter start line, HasLine laterText.toList 2 start line ∧
        ((∀ offset, ¬ MarkedInLine laterTokens start line offset) ∧ block = [gutter ++ line] ∨
          ∃ carets, block = [gutter ++ line, carets] ∧
            CaretsUnder (MarkedInLine laterTokens start line) start gutter carets) := by
  have hspan : Span.InLine ⟨7, 9⟩ 1 "print 12;".toList := ⟨by decide, by decide, by decide⟩
  have htokens : (Lexer.ofText laterText).tokenize.2 = .ok laterTokens := by decide +kernel
  obtain ⟨hexcerpt, hgutter⟩ := carets_line_up_iff laterText
  obtain ⟨header, gutter, carets, hrows, hiff⟩ := hexcerpt ['m'] hasLine_laterText hspan
  refine ⟨⟨header, gutter, carets, hrows, hiff.2 (by decide)⟩, ?_⟩
  obtain ⟨blocks, hblocks, hlength, hall⟩ := hgutter _ htokens
  have hlines : blocks.length = 2 := hlength
  obtain ⟨block, hblock⟩ : ∃ block, blocks[1]? = some block :=
    ⟨_, List.getElem?_eq_getElem (by omega)⟩
  obtain ⟨gutter, start, line, hline, hcarets⟩ := hall 1 block hblock
  refine ⟨blocks, block, hblocks, hblock, gutter, start, line, hline, hcarets.imp_right ?_⟩
  rintro ⟨carets, hrows, hiff⟩
  exact ⟨carets, hrows, hiff.2 (by decide)⟩

/-- A character in the line after some empty lines. -/
def farText (count : Nat) : String :=
  String.ofList (List.replicate count '\n' ++ ['x'])

theorem hasLine_farText (count : Nat) :
    HasLine (farText count).toList (count + 1) count ['x'] := by
  have hends : List.replicate count '\n' = [] ∨
      (List.replicate count '\n').getLast? = some '\n' := by
    cases count with
    | zero => exact .inl rfl
    | succ count => exact .inr (by rw [List.replicate_succ', List.getLast?_concat])
  have hline : '\n' ∉ ['x'] := by decide
  have hmk := HasLine.mk hends hline (.inl rfl)
  rw [List.count_replicate_self, List.length_replicate, List.append_nil] at hmk
  rw [farText, String.toList_ofList]
  exact hmk

/-- From line 10000 on the caret is one character too far to the left. -/
theorem carets_shifted :
    HasLine (farText 9999).toList 10000 9999 ['x'] ∧ Span.InLine ⟨9999, 10000⟩ 9999 ['x'] ∧
    (Source.ofText (farText 9999)).excerptRows ⟨9999, 10000⟩ ['m'] =
      ["At 10000:1-10000:2".toList, " 10000 | ".toList ++ ['x'],
        "      | ^".toList ++ " m".toList] ∧
    ¬ CaretsUnder (Span.Marked ⟨9999, 10000⟩) 9999 " 10000 | ".toList "      | ^".toList := by
  have hspan : Span.InLine ⟨9999, 10000⟩ 9999 ['x'] := ⟨by decide, by decide, by decide⟩
  have hline : HasLine (Source.ofText (farText 9999)).chars 10000 9999 ['x'] := by
    rw [Source.chars_ofText]
    exact hasLine_farText 9999
  refine ⟨hasLine_farText 9999, hspan, ?_, fun h => ?_⟩
  · rw [hline.excerptRows hspan ['m']]
    rfl
  · obtain ⟨offset, _, hi⟩ := (h 8).1 rfl
    have hgutter : " 10000 | ".toList.length = 9 := rfl
    omega

end LetPrint
