import LetPrint.Proofs.Carets
import LetPrint.Proofs.LineColumns
import LetPrint.Syntax.Node

/-! What an excerpt underlines.

An excerpt quotes the line that a span starts in and, if that is another one, the line that its
end lies in, each with a row of carets. Under a line of characters the carets are those of the
characters that the span covers (`caretsOfLine`, `caretsToEnd`, `caretsFromStart`). There is one
exception, because no row is left without carets: if a span ends with a line feed, its end lies at
the start of the next line, of which it covers nothing, and the first character of that line has a
caret nevertheless (`excerpt_underlines`, `carets_beyond_span`). -/
namespace LetPrint

/-- A line of a text in an excerpt, and the row of carets under it without the message. -/
structure Quotation (cs : List Char) where
  number : Nat
  start : Nat
  line : List Char
  carets : List Char
  hasLine : HasLine cs number start line

namespace Quotation
variable {cs : List Char}

/-- The line after its number. -/
def row (q : Quotation cs) : List Char :=
  Source.quoteGutter q.number ++ q.line

/-- There is a caret under a character of the line. The margin of the row has eight characters. -/
def HasCaret (q : Quotation cs) (i : Nat) : Prop :=
  (q.carets.drop 8)[i]? = some '^'

end Quotation

/-- The rows of an excerpt: a header, and one line or a first and a last one, with the message
after the last carets. Between the two lines there can be an ellipsis. -/
inductive Shows {cs : List Char} (header message : List Char) :
    Quotation cs → Quotation cs → Bool → List (List Char) → Prop
  | one (line : Quotation cs) :
    Shows header message line line false [header, line.row, line.carets ++ ' ' :: message]
  | two (first last : Quotation cs) (ellipsis : Bool) : first.number < last.number →
    Shows header message first last ellipsis
      ([header, first.row, first.carets] ++ (if ellipsis then ["      | ...".toList] else []) ++
        [last.row, last.carets ++ ' ' :: message])

/-! ### Rows of carets -/

section Rows
variable {start : Nat} {line : List Char} {span : Span} {i : Nat}

theorem getElem?_drop_caretRow (indent count : Int) (i : Nat) :
    ((Source.caretRow indent count).drop 8)[i]? = some '^' ↔
      indent.toNat ≤ i ∧ i < indent.toNat + (max 1 count).toNat := by
  rw [List.getElem?_drop, Source.getElem?_caretRow]
  omega

/-- The carets of a span in one line. -/
theorem caretsOfLine (hspan : span.InLine start line) (hne : span.start < span.stop) (i : Nat) :
    ((Source.caretRow (span.start - start) (span.stop - span.start)).drop 8)[i]? = some '^' ↔
      span.Covers (start + i) := by
  have := hspan.start_le
  rw [getElem?_drop_caretRow]
  unfold Span.Covers
  omega

/-- The carets in the line that a span starts in, if it ends in a later line. -/
theorem caretsToEnd (hfrom : (start : Int) ≤ span.start)
    (hstop : start + line.length < span.stop) (hi : i < line.length) :
    ((Source.caretRow (span.start - start)
      (line.length - (span.start - start))).drop 8)[i]? = some '^' ↔ span.Covers (start + i) := by
  rw [getElem?_drop_caretRow]
  unfold Span.Covers
  omega

/-- The carets in the line that the end of a span lies in, if it starts in an earlier line. -/
theorem caretsFromStart (hstart : span.start < start) (hfrom : (start : Int) ≤ span.stop)
    (hi : i < line.length) :
    ((Source.caretRow 0 (min (span.stop - start) line.length)).drop 8)[i]? = some '^' ↔
      span.Covers (start + i) ∨ i = 0 ∧ span.stop = start := by
  rw [getElem?_drop_caretRow]
  unfold Span.Covers
  omega

end Rows

/-! ### Lines one after the other -/

section Lines
variable {cs line line' : List Char} {number number' start start' offset offset' : Nat}

/-- A later line starts after the line feed that ends the earlier one. -/
theorem HasLine.stop_lt (h : HasLine cs number start line) (h' : HasLine cs number' start' line')
    (hlt : number < number') : start + line.length < start' := by
  obtain ⟨upTo, later, heq, hlength, _, _, hlater⟩ := h.lineStarts
  have hstart := h'.lineStart
  rw [heq, List.getElem?_append_right (by omega)] at hstart
  exact hlater start' (List.mem_of_getElem? hstart)

theorem HasLine.unique (h : HasLine cs number start line) (h' : HasLine cs number start' line') :
    start = start' ∧ line = line' := by
  have hline := h.getElem?_fedLines
  rw [h'.getElem?_fedLines] at hline
  cases hline
  exact ⟨h.start_unique h', rfl⟩

/-- An offset that is not before another one is not in an earlier line. -/
theorem HasLine.number_le (h : HasLine cs number start line) (h' : HasLine cs number' start' line')
    (hle : offset ≤ offset') (hfrom : start ≤ offset) (hto : offset' ≤ start' + line'.length) :
    number ≤ number' := by
  refine Nat.le_of_not_lt fun hlt => ?_
  have := h'.stop_lt h hlt
  omega

/-- An offset belongs to one line. -/
theorem HasLine.eq_of_mem (h : HasLine cs number start line) (h' : HasLine cs number' start' line')
    (hmem : start ≤ offset ∧ offset ≤ start + line.length)
    (hmem' : start' ≤ offset ∧ offset ≤ start' + line'.length) :
    number = number' ∧ start = start' ∧ line = line' := by
  have hnumber : number = number' := Nat.le_antisymm
    (h.number_le h' (Nat.le_refl offset) hmem.1 hmem'.2)
    (h'.number_le h (Nat.le_refl offset) hmem'.1 hmem.2)
  subst hnumber
  exact ⟨rfl, h.unique h'⟩

/-- There is a line between two others exactly if their numbers leave room for it. -/
theorem HasLine.exists_between_iff (h : HasLine cs number' start' line') :
    (∃ between start line, HasLine cs between start line ∧ number < between ∧ between < number') ↔
      number + 1 < number' := by
  constructor
  · rintro ⟨between, _, _, _, hfirst, hlast⟩
    omega
  · intro hlt
    have hlast := (List.getElem?_eq_some_iff.1 h.getElem?_fedLines).1
    have hbetween : number < (Text.fedLines cs).length := by omega
    obtain ⟨start, hline⟩ := hasLine_of_fedLines (List.getElem?_eq_getElem hbetween)
    exact ⟨number + 1, start, _, hline, Nat.lt_succ_self number, hlt⟩

end Lines

/-! ### Excerpts -/

/-- The lines of an excerpt underline a span, apart from one character at most. -/
structure Underlines {cs : List Char} (first last : Quotation cs) (ellipsis : Bool) (span : Span) :
    Prop where
  starts : first.start ≤ span.start ∧ span.start ≤ first.start + first.line.length
  stops : last.start ≤ span.stop ∧ span.stop ≤ last.start + last.line.length
  ellipsis_iff : ellipsis = true ↔ ∃ between start line, HasLine cs between start line ∧
    first.number < between ∧ between < last.number
  carets_first : ∀ i < first.line.length, first.HasCaret i ↔ span.Covers (first.start + i)
  /-- The first character of the last line has a caret also if the span ends right before it. -/
  carets_last : ∀ i < last.line.length,
    last.HasCaret i ↔ span.Covers (last.start + i) ∨ i = 0 ∧ span.stop = last.start

section Excerpts
variable {s : Source} {number number' start start' : Nat} {line line' : List Char} {span : Span}

theorem HasLine.underlines_line (h : HasLine s.chars number start line)
    (hspan : span.InLine start line) (hne : span.start < span.stop) (message : List Char) :
    ∃ q : Quotation s.chars,
      Shows (Source.header (s.position span.start) (s.position span.stop)) message q q false
        (s.excerptRows span message) ∧ Underlines q q false span := by
  obtain ⟨hfrom, hle, hto⟩ := hspan
  let carets := Source.caretRow (span.start - start) (span.stop - span.start)
  refine ⟨⟨number, start, line, carets, h⟩, ?_, ?_⟩
  · rw [h.excerptRows ⟨hfrom, hle, hto⟩, h.position hfrom (by omega), h.position (by omega) hto]
    exact .one _
  · constructor
    case starts => exact ⟨hfrom, Int.le_trans hle hto⟩
    case stops => exact ⟨Int.le_trans hfrom hle, hto⟩
    case ellipsis_iff => exact iff_of_false nofun fun ⟨_, _, _, _, hlt, hgt⟩ => Nat.lt_asymm hlt hgt
    case carets_first => exact fun i _ => caretsOfLine ⟨hfrom, hle, hto⟩ hne i
    case carets_last =>
      intro i _
      have hafter : ¬ (i = 0 ∧ span.stop = start) := by omega
      exact (caretsOfLine ⟨hfrom, hle, hto⟩ hne i).trans (or_iff_left hafter).symm

/-- The excerpt of a span that ends in a later line than it starts in. -/
theorem HasLine.excerptRows_across (h : HasLine s.chars number start line)
    (h' : HasLine s.chars number' start' line') (hlt : number < number')
    (hstarts : start ≤ span.start ∧ span.start ≤ start + line.length)
    (hstops : start' ≤ span.stop ∧ span.stop ≤ start' + line'.length) (message : List Char) :
    s.excerptRows span message =
      [ Source.header ⟨number, span.start - start + 1⟩ ⟨number', span.stop - start' + 1⟩,
        Source.quoteGutter number ++ line,
        Source.caretRow (span.start - start) (line.length - (span.start - start)) ] ++
      (if number + 1 < number' then ["      | ...".toList] else []) ++
      [ Source.quoteGutter number' ++ line',
        Source.caretRow 0 (min (span.stop - start') line'.length) ++ ' ' :: message ] := by
  have hindent : span.start - start + 1 - 1 = span.start - start := by omega
  have hcount : span.stop - start' + 1 - 1 = span.stop - start' := by omega
  simp only [Source.excerptRows, h.position hstarts.1 hstarts.2, h'.position hstops.1 hstops.2,
    if_neg (Nat.ne_of_lt hlt), Source.quoteRow_eq, h.line_eq, h'.line_eq, hindent, hcount]

theorem HasLine.underlines_across (h : HasLine s.chars number start line)
    (h' : HasLine s.chars number' start' line') (hlt : number < number')
    (hstarts : start ≤ span.start ∧ span.start ≤ start + line.length)
    (hstops : start' ≤ span.stop ∧ span.stop ≤ start' + line'.length) (message : List Char) :
    ∃ (first last : Quotation s.chars) (ellipsis : Bool),
      Shows (Source.header (s.position span.start) (s.position span.stop)) message first last
        ellipsis (s.excerptRows span message) ∧ Underlines first last ellipsis span := by
  have hlines := h.stop_lt h' hlt
  let carets := Source.caretRow (span.start - start) (line.length - (span.start - start))
  let carets' := Source.caretRow 0 (min (span.stop - start') line'.length)
  refine ⟨⟨number, start, line, carets, h⟩, ⟨number', start', line', carets', h'⟩,
    decide (number + 1 < number'), ?_, ?_⟩
  · rw [h.excerptRows_across h' hlt hstarts hstops, h.position hstarts.1 hstarts.2,
      h'.position hstops.1 hstops.2]
    have hellipsis : (if number + 1 < number' then ["      | ...".toList] else []) =
        if decide (number + 1 < number') = true then ["      | ...".toList] else [] := by
      simp only [decide_eq_true_iff]
    rw [hellipsis]
    exact .two _ _ _ hlt
  · constructor
    case starts => exact hstarts
    case stops => exact hstops
    case ellipsis_iff => rw [decide_eq_true_iff, h'.exists_between_iff]
    case carets_first => exact fun i hi => caretsToEnd hstarts.1 (by omega) hi
    case carets_last => exact fun i hi => caretsFromStart (by omega) hstops.1 hi

end Excerpts

/-- A message under the excerpt for a node, if the node has a place. -/
def Source.excerptFor? (s : Source) (node : Node) (message : String) : Option String :=
  node.place?.map fun span => s.excerpt span message

/-- **An excerpt underlines what a node covers, and one character more at most.** Let the span of a
node be a part of a text that is not empty; an offset in place of a node is the span of that one
character. The excerpt quotes the line in which the span starts and the line in which its end lies,
and has an ellipsis exactly if there is a line between the two. In the first of them the characters
with a caret are those that the span covers. So they are in the last line, except that its first
character has a caret also if the span ends right before it. -/
theorem excerpt_underlines {text : String} {node : Node} {span : Span}
    (hplace : node.place? = some span) (hfrom : 0 ≤ span.start) (hne : span.start < span.stop)
    (hto : span.stop ≤ text.toList.length) (message : String) :
    ∃ (first last : Quotation text.toList) (ellipsis : Bool) (header : List Char)
      (rows : List (List Char)),
      (Source.ofText text).excerptFor? node message =
        some (String.ofList (['\n'].intercalate rows)) ∧
      Shows header message.toList first last ellipsis rows ∧
      Underlines first last ellipsis span := by
  have hexcerpt : (Source.ofText text).excerptFor? node message =
      some ((Source.ofText text).excerpt span message) := by
    rw [Source.excerptFor?, hplace]
    rfl
  obtain ⟨offset, hoffset⟩ := Int.eq_ofNat_of_zero_le hfrom
  obtain ⟨offset', hoffset'⟩ := Int.eq_ofNat_of_zero_le (Int.le_trans hfrom (Int.le_of_lt hne))
  have hstart : offset ≤ (Source.ofText text).chars.length := by
    rw [Source.chars_ofText]
    omega
  have hstop : offset' ≤ (Source.ofText text).chars.length := by
    rw [Source.chars_ofText]
    omega
  obtain ⟨number, start, line, h, hstarts⟩ := exists_hasLine hstart
  obtain ⟨number', start', line', h', hstops⟩ := exists_hasLine hstop
  have horder : offset ≤ offset' := by omega
  have hle := h.number_le h' horder hstarts.1 hstops.2
  rcases Nat.lt_or_eq_of_le hle with hlt | rfl
  · have hstarts' : start ≤ span.start ∧ span.start ≤ start + line.length := by omega
    have hstops' : start' ≤ span.stop ∧ span.stop ≤ start' + line'.length := by omega
    obtain ⟨first, last, ellipsis, hshows, hunderlines⟩ :=
      h.underlines_across h' hlt hstarts' hstops' message.toList
    exact ⟨first, last, ellipsis, _, _, hexcerpt, hshows, hunderlines⟩
  · obtain ⟨rfl, rfl⟩ := h.unique h'
    have hspan : span.InLine start line := ⟨by omega, by omega, by omega⟩
    obtain ⟨q, hshows, hunderlines⟩ := h.underlines_line hspan hne message.toList
    exact ⟨q, q, false, _, _, hexcerpt, hshows, hunderlines⟩

/-- Three lines, of which the second is empty. -/
def gappedText : String :=
  "ab\n\ncd"

/-- A node over all three lines, up to the first character of the last one. -/
theorem excerpt_underlines_gappedText :
    (Node.foreign "Block" ⟨1, 5⟩).place? = some ⟨1, 5⟩ ∧
    ∃ (first last : Quotation gappedText.toList) (ellipsis : Bool) (header : List Char)
      (rows : List (List Char)),
      (Source.ofText gappedText).excerptFor? (.foreign "Block" ⟨1, 5⟩) "m" =
        some (String.ofList (['\n'].intercalate rows)) ∧
      Shows header ['m'] first last ellipsis rows ∧ ellipsis = true ∧
      first.line = "ab".toList ∧ ¬ first.HasCaret 0 ∧ first.HasCaret 1 ∧
      last.line = "cd".toList ∧ last.HasCaret 0 ∧ ¬ last.HasCaret 1 := by
  have hplace : (Node.foreign "Block" ⟨1, 5⟩).place? = some ⟨1, 5⟩ := rfl
  have hto : (5 : Int) ≤ gappedText.toList.length := by decide
  obtain ⟨first, last, ellipsis, header, rows, hexcerpt, hshows, hunderlines⟩ :=
    excerpt_underlines hplace (by decide) (by decide) hto "m"
  obtain ⟨hstarts, hstops, hellipsis, hcarets, hcarets'⟩ := hunderlines
  have hab : HasLine gappedText.toList 1 0 "ab".toList :=
    hasLine_first (by decide : '\n' ∉ "ab".toList) (.inr rfl)
  have hends : "ab\n\n".toList = [] ∨ "ab\n\n".toList.getLast? = some '\n' := .inr rfl
  have hcd : HasLine gappedText.toList 3 4 "cd".toList :=
    .mk hends (by decide : '\n' ∉ "cd".toList) (.inl rfl)
  have hone : 0 ≤ 1 ∧ 1 ≤ 0 + "ab".toList.length := by decide
  have hfive : 4 ≤ 5 ∧ 5 ≤ 4 + "cd".toList.length := by decide
  dsimp only at hstarts hstops
  obtain ⟨hnumber, hstart, hline⟩ := hab.eq_of_mem first.hasLine hone (by omega)
  obtain ⟨hnumber', hstart', hline'⟩ := hcd.eq_of_mem last.hasLine hfive (by omega)
  rw [← hnumber, ← hnumber', hcd.exists_between_iff] at hellipsis
  rw [← hstart, ← hline] at hcarets
  rw [← hstart', ← hline'] at hcarets'
  refine ⟨hplace, first, last, ellipsis, header, rows, hexcerpt, hshows, hellipsis.2 (by decide),
    hline.symm, ?_, ?_, hline'.symm, ?_, ?_⟩
  · rw [hcarets 0 (by decide)]
    decide
  · rw [hcarets 1 (by decide)]
    decide
  · rw [hcarets' 0 (by decide)]
    decide
  · rw [hcarets' 1 (by decide)]
    decide

/-- A span that ends with a line feed has a caret under the character after it. -/
theorem carets_beyond_span :
    (Source.ofText "ab\ncd").excerptRows ⟨0, 3⟩ ['m'] =
      ["At 1:1-2:1".toList, "    1 | ".toList ++ "ab".toList, "      | ^^".toList,
        "    2 | ".toList ++ "cd".toList, "      | ^".toList ++ " m".toList] ∧
    HasLine "ab\ncd".toList 2 3 "cd".toList ∧
    ("      | ^".toList.drop 8)[0]? = some '^' ∧ ¬ Span.Covers ⟨0, 3⟩ (3 + 0) := by
  have hends : "ab\n".toList = [] ∨ "ab\n".toList.getLast? = some '\n' := .inr rfl
  refine ⟨by decide, .mk hends (by decide : '\n' ∉ "cd".toList) (.inl rfl), rfl, ?_⟩
  decide

end LetPrint
