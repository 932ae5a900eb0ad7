import LetPrint.Proofs.SourceLines

/-! Lines and columns.

A source turns an offset into a line and a column by its table of line starts, and shows a line by
splitting its text again. The two agree at every offset of the text, its end and its line feeds
included (`HasLine.tells`), so that a position and its offset determine each other, and positions
come in the order of their offsets (`position_before_iff`). There is a position for every column
of every line, up to the one after its last character (`positions_exact`). -/
namespace LetPrint

/-- One position comes before another when a text is read. -/
def Position.Before (p q : Position) : Prop :=
  p.line < q.line ∨ p.line = q.line ∧ p.column < q.column

/-- What a position tells of an offset of a source. -/
structure Source.Tells (s : Source) (p : Position) (offset : Nat) : Prop where
  /-- The line is one more than the line feeds before the offset. -/
  line : p.line = (s.chars.take offset).count '\n' + 1
  /-- The column is one more than the characters after the last of these line feeds, or after the
  start of the text if there are none. -/
  column : p.column = ((s.chars.take offset).reverse.takeWhile (· ≠ '\n')).length + 1
  column_pos : 1 ≤ p.column
  column_le : p.column ≤ (s.line p.line).length + 1
  resolves : ∃ start, s.lineStarts[p.line - 1]? = some start ∧ start + p.column - 1 = offset
  char : ∀ c, s.chars[offset]? = some c → c ≠ '\n' →
    (s.line p.line)[(p.column - 1).toNat]? = some c

/-! ### Offsets of a line -/

section Lines
variable {cs line : List Char} {number start offset : Nat}

/-- What stands before an offset of a line: the lines before, and the line up to the offset. -/
theorem HasLine.take_eq (h : HasLine cs number start line) (hfrom : start ≤ offset)
    (hto : offset ≤ start + line.length) :
    ∃ before, cs.take offset = before ++ line.take (offset - start) ∧
      (before = [] ∨ before.getLast? = some '\n') ∧ before.count '\n' + 1 = number := by
  cases h with
  | @mk before line after hbefore _ _ =>
    obtain ⟨k, rfl⟩ := Nat.exists_eq_add_of_le hfrom
    refine ⟨before, ?_, hbefore, rfl⟩
    rw [List.take_length_add_append, Nat.add_sub_cancel_left,
      List.take_append_of_le_length (by omega)]

theorem HasLine.count_take (h : HasLine cs number start line) (hfrom : start ≤ offset)
    (hto : offset ≤ start + line.length) : (cs.take offset).count '\n' + 1 = number := by
  obtain ⟨before, htake, _, hnumber⟩ := h.take_eq hfrom hto
  have hline : (line.take (offset - start)).count '\n' = 0 :=
    List.count_eq_zero.2 fun hmem => h.feed_not_mem (List.mem_of_mem_take hmem)
  rw [htake, List.count_append, hline, Nat.add_zero, hnumber]

/-- Back from an offset of a line, the first line feed is the one before the line. -/
theorem HasLine.length_takeWhile (h : HasLine cs number start line) (hfrom : start ≤ offset)
    (hto : offset ≤ start + line.length) :
    ((cs.take offset).reverse.takeWhile (· ≠ '\n')).length = offset - start := by
  obtain ⟨before, htake, hbefore, _⟩ := h.take_eq hfrom hto
  have hline : ∀ c ∈ (line.take (offset - start)).reverse, decide (c ≠ '\n') = true := by
    intro c hc
    rw [decide_eq_true_iff]
    rintro rfl
    exact h.feed_not_mem (List.mem_of_mem_take (List.mem_reverse.1 hc))
  have hnone : before.reverse.takeWhile (· ≠ '\n') = [] := by
    rcases hbefore with rfl | hbefore
    · rfl
    · obtain ⟨front, rfl⟩ := List.getLast?_eq_some_iff.1 hbefore
      rw [List.reverse_append]
      rfl
  rw [htake, List.reverse_append, List.takeWhile_append_of_pos hline, hnone, List.append_nil,
    List.length_reverse, List.length_take]
  omega

/-- A character at an offset of a line is one of the line, or the line feed that ends it. -/
theorem HasLine.getElem?_eq {chars : List Char} (h : HasLine cs number start chars)
    (hfrom : start ≤ offset) (hto : offset ≤ start + chars.length) {c : Char}
    (hc : cs[offset]? = some c) (hfeed : c ≠ '\n') : chars[offset - start]? = some c := by
  cases h with
  | @mk before chars after _ _ hafter =>
    rw [List.getElem?_append_right hfrom] at hc
    by_cases hlt : offset - before.length < chars.length
    · rwa [List.getElem?_append_left hlt] at hc
    · have hend : offset - before.length = chars.length := by omega
      rw [hend, List.getElem?_append_right (Nat.le_refl _), Nat.sub_self, ← List.head?_eq_getElem?]
        at hc
      rcases hafter with rfl | hafter
      · cases hc
      · rw [hafter] at hc
        cases hc
        exact absurd rfl hfeed

theorem HasLine.stop_le (h : HasLine cs number start line) : start + line.length ≤ cs.length := by
  cases h
  simp only [List.length_append]
  omega

/-- A line has one start. -/
theorem HasLine.start_unique {start' : Nat} {line' : List Char} (h : HasLine cs number start line)
    (h' : HasLine cs number start' line') : start = start' := by
  have hstart := h.lineStart
  rw [h'.lineStart] at hstart
  cases hstart
  rfl

/-- **The position of an offset of a line tells where it is.** -/
theorem HasLine.tells {s : Source} (h : HasLine s.chars number start line) (hfrom : start ≤ offset)
    (hto : offset ≤ start + line.length) : s.Tells (s.position offset) offset := by
  have hplace : s.position offset = ⟨number, offset - start + 1⟩ := h.position (by omega) (by omega)
  rw [hplace]
  constructor
  case line => exact (h.count_take hfrom hto).symm
  case column =>
    rw [h.length_takeWhile hfrom hto]
    dsimp only
    omega
  case column_pos =>
    dsimp only
    omega
  case column_le =>
    dsimp only
    rw [h.line_eq]
    omega
  case resolves =>
    refine ⟨start, ?_, ?_⟩
    · rw [s.lineStarts_eq]
      exact h.lineStart
    · dsimp only
      omega
  case char =>
    intro c hc hfeed
    have hindex : ((offset : Int) - start + 1 - 1).toNat = offset - start := by omega
    dsimp only
    rw [h.line_eq, hindex]
    exact h.getElem?_eq hfrom hto hc hfeed

end Lines

/-! ### The order of positions -/

theorem Source.tells_position (s : Source) {offset : Nat} (h : offset ≤ s.chars.length) :
    s.Tells (s.position offset) offset := by
  obtain ⟨number, start, line, hline, hfrom, hto⟩ := exists_hasLine h
  exact hline.tells hfrom hto

theorem Position.Before.asymm {p q : Position} (h : p.Before q) : ¬ q.Before p := by
  unfold Position.Before at *
  omega

/-- A position and its offset determine each other. -/
theorem Source.Tells.unique {s : Source} {p : Position} {offset other : Nat}
    (h : s.Tells p offset) (h' : s.Tells p other) : offset = other := by
  obtain ⟨start, hstart, hoffset⟩ := h.resolves
  obtain ⟨start', hstart', hother⟩ := h'.resolves
  rw [hstart] at hstart'
  cases hstart'
  omega

theorem Source.before_of_lt (s : Source) {offset other : Nat} (hlt : offset < other)
    (h : other ≤ s.chars.length) : (s.position offset).Before (s.position other) := by
  have hp := s.tells_position (Nat.le_of_lt (Nat.lt_of_lt_of_le hlt h))
  have hq := s.tells_position h
  have hline : (s.position offset).line ≤ (s.position other).line := by
    rw [hp.line, hq.line]
    have htakes : s.chars.take offset <+: s.chars.take other :=
      List.take_prefix_take_left (Nat.le_of_lt hlt)
    exact Nat.succ_le_succ (htakes.sublist.count_le '\n')
  obtain ⟨start, hstart, hoffset⟩ := hp.resolves
  obtain ⟨start', hstart', hother⟩ := hq.resolves
  by_cases heq : (s.position offset).line = (s.position other).line
  · rw [heq, hstart'] at hstart
    cases hstart
    exact .inr ⟨heq, by omega⟩
  · exact .inl (by omega)

/-- **Positions come in the order of their offsets.** -/
theorem Source.position_before_iff (s : Source) {offset other : Nat} (h : offset ≤ s.chars.length)
    (h' : other ≤ s.chars.length) :
    (s.position offset).Before (s.position other) ↔ offset < other := by
  constructor
  · intro hbefore
    rcases Nat.lt_trichotomy offset other with hlt | rfl | hlt
    · exact hlt
    · exact absurd hbefore hbefore.asymm
    · exact absurd (s.before_of_lt hlt h) hbefore.asymm
  · exact fun hlt => s.before_of_lt hlt h'

/-- Every column of every line is the position of an offset. -/
theorem Source.exists_offset (s : Source) {p : Position} (hline : 1 ≤ p.line)
    (hlines : p.line ≤ s.lines.length) (hcolumn : 1 ≤ p.column)
    (hcolumns : p.column ≤ (s.line p.line).length + 1) :
    ∃ offset ≤ s.chars.length, s.position offset = p := by
  obtain ⟨number, column⟩ := p
  dsimp only at hline hlines hcolumn hcolumns
  obtain ⟨k, rfl⟩ := Nat.exists_eq_add_of_le' hline
  have hk : (Text.fedLines s.chars)[k]? = some _ := List.getElem?_eq_getElem (by exact hlines)
  obtain ⟨start, h⟩ := hasLine_of_fedLines hk
  rw [h.line_eq] at hcolumns
  have hstop := h.stop_le
  refine ⟨start + (column - 1).toNat, by omega, ?_⟩
  have hfrom : (start : Int) ≤ (start + (column - 1).toNat : Nat) := by omega
  rw [h.position hfrom (by omega)]
  congr 1
  omega

/-! ### The table of line starts -/

theorem pairwise_offsetsAfterFeeds (offset : Nat) (cs : List Char) :
    (offsetsAfterFeeds offset cs).Pairwise (· < ·) := by
  induction cs generalizing offset with
  | nil => exact .nil
  | cons c cs ih =>
    rw [offsetsAfterFeeds]
    split
    · exact List.pairwise_cons.2 ⟨fun start hstart => (mem_offsetsAfterFeeds hstart).1, ih _⟩
    · exact ih _

theorem Source.pairwise_lineStarts (s : Source) : s.lineStarts.Pairwise (· < ·) := by
  rw [s.lineStarts_eq]
  refine List.pairwise_cons.2 ⟨fun start hstart => ?_, pairwise_offsetsAfterFeeds 0 s.chars⟩
  exact (mem_offsetsAfterFeeds hstart).1

/-- If everything before an item that passes a test passes it too, then the items in front that
pass are all that do. -/
theorem length_takeWhile_eq_countP {α : Type} {test : α → Bool} {items : List α}
    (h : items.Pairwise fun earlier later => test later → test earlier) :
    (items.takeWhile test).length = items.countP test := by
  induction items with
  | nil => rfl
  | cons item items ih =>
    obtain ⟨hfirst, hrest⟩ := List.pairwise_cons.1 h
    by_cases hitem : test item = true
    · rw [List.takeWhile_cons_of_pos hitem, List.countP_cons_of_pos hitem, List.length_cons,
        ih hrest]
    · have hnone : items.countP test = 0 :=
        List.countP_eq_zero.2 fun later hlater hpass => hitem (hfirst later hlater hpass)
      rw [List.takeWhile_cons_of_neg hitem, List.countP_cons_of_neg hitem, hnone]
      rfl

/-- The line of any offset, in the text or not, is the number of line starts up to it. -/
theorem Source.position_line (s : Source) (offset : Int) :
    (s.position offset).line = s.lineStarts.countP fun start : Nat => (start : Int) ≤ offset := by
  apply length_takeWhile_eq_countP
  refine s.pairwise_lineStarts.imp fun hlt hle => ?_
  rw [decide_eq_true_iff] at hle ⊢
  omega

/-- **Lines and columns are another way to say offsets.** The position of an offset of a text, or
of its end, tells how many line feeds come before it and how far it is from the last of them, and
the source finds the offset and its character again at that line and column. Different offsets
have different positions, in the same order; every column of every line is one. The table of line
starts ascends, has one entry for each line, and gives the line of an offset as the number of
entries up to it. -/
theorem positions_exact (s : Source) :
    (∀ offset ≤ s.chars.length, s.Tells (s.position offset) offset) ∧
    (∀ offset ≤ s.chars.length, ∀ other ≤ s.chars.length,
      (s.position offset = s.position other → offset = other) ∧
        ((s.position offset).Before (s.position other) ↔ offset < other)) ∧
    (∀ p : Position, 1 ≤ p.line → p.line ≤ s.lines.length → 1 ≤ p.column →
      p.column ≤ (s.line p.line).length + 1 → ∃ offset ≤ s.chars.length, s.position offset = p) ∧
    s.lineStarts.Pairwise (· < ·) ∧ s.lineStarts.length = s.lines.length ∧
    ∀ offset : Int,
      (s.position offset).line = s.lineStarts.countP fun start : Nat => (start : Int) ≤ offset := by
  refine ⟨fun offset h => s.tells_position h, fun offset h other h' => ⟨fun heq => ?_, ?_⟩,
    fun p => s.exists_offset, s.pairwise_lineStarts, s.length_lineStarts, s.position_line⟩
  · have htells := s.tells_position h'
    rw [← heq] at htells
    exact (s.tells_position h).unique htells
  · exact s.position_before_iff h h'

/-- An empty line, a line, and an empty line that no line feed ends. -/
def gappedSource : Source :=
  .ofText "\nab\n"

/-- The end of that text is its third line, and the line feed before it a column of the second. -/
theorem positions_exact_gappedSource :
    gappedSource.Tells ⟨3, 1⟩ 4 ∧ gappedSource.Tells ⟨2, 3⟩ 3 ∧
      Position.Before ⟨2, 3⟩ ⟨3, 1⟩ ∧
      ∃ offset ≤ gappedSource.chars.length, gappedSource.position offset = ⟨2, 2⟩ := by
  obtain ⟨htells, horder, hevery, _⟩ := positions_exact gappedSource
  have hend : gappedSource.position 4 = ⟨3, 1⟩ := by decide
  have hfeed : gappedSource.position 3 = ⟨2, 3⟩ := by decide
  have hfour : 4 ≤ gappedSource.chars.length := by decide
  have hthree : 3 ≤ gappedSource.chars.length := by decide
  refine ⟨?_, ?_, ?_, ?_⟩
  · exact hend ▸ htells 4 hfour
  · exact hfeed ▸ htells 3 hthree
  · exact hend ▸ hfeed ▸ (horder 3 hthree 4 hfour).2.2 (by decide)
  · exact hevery ⟨2, 2⟩ (by decide) (by decide) (by decide) (by decide)

end LetPrint
