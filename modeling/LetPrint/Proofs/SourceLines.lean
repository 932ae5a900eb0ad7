import LetPrint.Source.Map

/-! The lines of a source.

`HasLine` says where a line of a text stands: what comes before it is empty or ends with a line
feed, and what comes after it is empty or begins with one. The three ways in which a source
deals with lines agree with that: its table of line starts (`HasLine.lineStart`), its lines by
number (`HasLine.line_eq`), and the position of an offset, which is one of its line or just
after it (`HasLine.position`). Every offset of a text belongs to a line (`exists_hasLine`), and
every line that a source has is one (`hasLine_of_fedLines`). -/
namespace LetPrint

/-- A text has a line with a number, counted from one, which starts at an offset. -/
inductive HasLine : List Char → Nat → Nat → List Char → Prop
  | mk {before line after : List Char} : before = [] ∨ before.getLast? = some '\n' →
    '\n' ∉ line → after = [] ∨ after.head? = some '\n' →
    HasLine (before ++ (line ++ after)) (before.count '\n' + 1) before.length line

/-! ### Line starts -/

theorem offsetsAfterFeeds_append (offset : Nat) (front back : List Char) :
    offsetsAfterFeeds offset (front ++ back) =
      offsetsAfterFeeds offset front ++ offsetsAfterFeeds (offset + front.length) back := by
  induction front generalizing offset with
  | nil => rfl
  | cons c front ih =>
    have hlength : offset + (c :: front).length = offset + 1 + front.length := by
      rw [List.length_cons]
      omega
    rw [List.cons_append, offsetsAfterFeeds, offsetsAfterFeeds, ih, hlength]
    split <;> rfl

theorem length_offsetsAfterFeeds (offset : Nat) (cs : List Char) :
    (offsetsAfterFeeds offset cs).length = cs.count '\n' := by
  induction cs generalizing offset with
  | nil => rfl
  | cons c cs ih =>
    rw [offsetsAfterFeeds, List.count_cons]
    by_cases hc : c = '\n'
    · rw [if_pos hc, if_pos (beq_iff_eq.2 hc), List.length_cons, ih]
    · rw [if_neg hc, if_neg (mt beq_iff_eq.1 hc), ih]
      rfl

theorem offsetsAfterFeeds_of_unbroken (offset : Nat) {cs : List Char} (h : '\n' ∉ cs) :
    offsetsAfterFeeds offset cs = [] := by
  rw [← List.length_eq_zero_iff, length_offsetsAfterFeeds, List.count_eq_zero]
  exact h

theorem mem_offsetsAfterFeeds {offset start : Nat} {cs : List Char}
    (h : start ∈ offsetsAfterFeeds offset cs) : offset < start ∧ start ≤ offset + cs.length := by
  induction cs generalizing offset with
  | nil => cases h
  | cons c cs ih =>
    rw [offsetsAfterFeeds] at h
    rw [List.length_cons]
    split at h
    · rcases List.mem_cons.1 h with rfl | h
      · omega
      · have := ih h
        omega
    · have := ih h
      omega

/-- The last line start of a text that ends with a line feed, or is empty, is its end. -/
theorem getLast?_lineStartsOf {before : List Char}
    (h : before = [] ∨ before.getLast? = some '\n') :
    (lineStartsOf before).getLast? = some before.length := by
  rcases h with rfl | h
  · rfl
  · obtain ⟨front, rfl⟩ := List.getLast?_eq_some_iff.1 h
    have hfeed : offsetsAfterFeeds (0 + front.length) ['\n'] = [front.length + 1] := by
      rw [Nat.zero_add]
      rfl
    rw [lineStartsOf, offsetsAfterFeeds_append, hfeed, ← List.cons_append, List.getLast?_concat,
      List.length_append]
    rfl

section Lines
variable {cs : List Char} {number start : Nat} {line : List Char}

theorem HasLine.feed_not_mem (h : HasLine cs number start line) : '\n' ∉ line := by
  cases h
  assumption

/-- The line starts up to a line are those of the text before it; the others come after it. -/
theorem HasLine.lineStarts (h : HasLine cs number start line) :
    ∃ upTo later, lineStartsOf cs = upTo ++ later ∧ upTo.length = number ∧
      upTo.getLast? = some start ∧ (∀ s ∈ upTo, s ≤ start) ∧
      ∀ s ∈ later, start + line.length < s := by
  cases h with
  | @mk before line after hbefore hline hafter =>
    refine ⟨lineStartsOf before, offsetsAfterFeeds (before.length + line.length) after, ?_, ?_,
      getLast?_lineStartsOf hbefore, fun s hs => ?_, fun s hs => (mem_offsetsAfterFeeds hs).1⟩
    · rw [lineStartsOf, offsetsAfterFeeds_append, offsetsAfterFeeds_append, Nat.zero_add,
        offsetsAfterFeeds_of_unbroken _ hline, List.nil_append]
      rfl
    · rw [lineStartsOf, List.length_cons, length_offsetsAfterFeeds]
    · rcases List.mem_cons.1 hs with rfl | hs
      · exact Nat.zero_le _
      · have := (mem_offsetsAfterFeeds hs).2
        omega

/-- The table of line starts has the start of the line at its number. -/
theorem HasLine.lineStart (h : HasLine cs number start line) :
    (lineStartsOf cs)[number - 1]? = some start := by
  obtain ⟨upTo, later, heq, hlength, hlast, _⟩ := h.lineStarts
  rw [List.getLast?_eq_getElem?, hlength] at hlast
  have hlt := (List.getElem?_eq_some_iff.1 hlast).1
  rw [heq, List.getElem?_append_left hlt, hlast]

/-- **An offset of a line, or right after it, has that line's number**, and its column is counted
from the start of the line. -/
theorem HasLine.position {s : Source} (h : HasLine s.chars number start line) {offset : Int}
    (hfrom : start ≤ offset) (hto : offset ≤ start + line.length) :
    s.position offset = ⟨number, offset - start + 1⟩ := by
  obtain ⟨upTo, later, heq, hlength, hlast, hupTo, hlater⟩ := h.lineStarts
  have hbefore : ∀ start' ∈ upTo, decide ((start' : Int) ≤ offset) = true := by
    intro start' hstart'
    have := hupTo start' hstart'
    rw [decide_eq_true_iff]
    omega
  have hafter : later.takeWhile (fun start' : Nat => decide ((start' : Int) ≤ offset)) = [] := by
    cases later with
    | nil => rfl
    | cons next later =>
      have := hlater next (List.mem_cons_self ..)
      have hnext : ¬ ((next : Int) ≤ offset) := by omega
      exact List.takeWhile_cons_of_neg (mt of_decide_eq_true hnext)
  have htake : s.lineStarts.takeWhile (fun start' : Nat => decide ((start' : Int) ≤ offset)) =
      upTo := by
    rw [s.lineStarts_eq, heq, List.takeWhile_append_of_pos hbefore, hafter, List.append_nil]
  simp only [Source.position, htake, hlength, hlast, Option.some_or, Option.getD_some]

/-- A text of one line has its columns as far out as one likes. -/
theorem Source.position_of_oneLine {s : Source} (h : s.lineStarts = [0]) {offset : Int}
    (hfrom : 0 ≤ offset) : s.position offset = ⟨1, offset + 1⟩ := by
  simp [position, h, hfrom]

/-! ### Lines by number -/

namespace Text

theorem fedLines_of_unbroken {cs : List Char} (h : '\n' ∉ cs) : fedLines cs = [cs] :=
  List.splitOnP_eq_singleton fun _ hc => beq_false_of_ne fun heq => h (heq ▸ hc)

theorem fedLines_append_feed (front back : List Char) :
    fedLines (front ++ '\n' :: back) = fedLines front ++ fedLines back :=
  List.splitOnP_append_cons front back rfl

/-- A text is one line, or a line that a line feed ends and another text. -/
theorem line_induction {motive : List Char → Prop} (last : ∀ line, '\n' ∉ line → motive line)
    (feed : ∀ line rest, '\n' ∉ line → motive rest → motive (line ++ '\n' :: rest))
    (cs : List Char) : motive cs := by
  induction hn : cs.length using Nat.strongRecOn generalizing cs with
  | _ n ih =>
    by_cases h : '\n' ∈ cs
    · obtain ⟨line, rest, rfl, hline⟩ := List.eq_append_cons_of_mem h
      have hshort : rest.length < n := by
        rw [← hn, List.length_append, List.length_cons]
        omega
      exact feed line rest hline (ih rest.length hshort rest rfl)
    · exact last cs h

/-- A line feed opens one more line. -/
theorem length_fedLines (cs : List Char) : (fedLines cs).length = cs.count '\n' + 1 := by
  induction cs using line_induction with
  | last line h => rw [fedLines_of_unbroken h, List.count_eq_zero.2 h]; rfl
  | feed line rest h ih =>
    rw [fedLines_append_feed, fedLines_of_unbroken h, List.length_append, ih, List.count_append,
      List.count_cons_self, List.count_eq_zero.2 h, List.length_singleton]
    omega

end Text

/-- The table has one start for each line. -/
theorem Source.length_lineStarts (s : Source) : s.lineStarts.length = s.lines.length := by
  rw [s.lineStarts_eq, Source.lines, Text.length_fedLines, lineStartsOf, List.length_cons,
    length_offsetsAfterFeeds]

/-- A line is found by its number among all lines. -/
theorem HasLine.getElem?_fedLines (h : HasLine cs number start line) :
    (Text.fedLines cs)[number - 1]? = some line := by
  cases h with
  | @mk before line after hbefore hline hafter =>
    have hfirst : ∃ later, Text.fedLines (line ++ after) = line :: later := by
      rcases hafter with rfl | hafter
      · exact ⟨[], by rw [List.append_nil, Text.fedLines_of_unbroken hline]⟩
      · obtain ⟨rest, rfl⟩ := List.head?_eq_some_iff.1 hafter
        exact ⟨Text.fedLines rest, by
          rw [Text.fedLines_append_feed, Text.fedLines_of_unbroken hline, List.singleton_append]⟩
    obtain ⟨later, hfirst⟩ := hfirst
    rcases hbefore with rfl | hbefore
    · rw [List.nil_append, hfirst]
      rfl
    · obtain ⟨front, rfl⟩ := List.getLast?_eq_some_iff.1 hbefore
      have hlength : (front ++ ['\n']).count '\n' = (Text.fedLines front).length := by
        rw [Text.length_fedLines, List.count_append]
        rfl
      rw [List.append_assoc, List.singleton_append, Text.fedLines_append_feed, hfirst, hlength,
        Nat.add_sub_cancel, List.getElem?_append_right (Nat.le_refl _), Nat.sub_self]
      rfl

theorem HasLine.number_pos (h : HasLine cs number start line) : 0 < number := by
  cases h
  exact Nat.succ_pos _

/-- The source line with the number of a line is that line. -/
theorem HasLine.line_eq {s : Source} (h : HasLine s.chars number start line) :
    s.line number = line := by
  have hpos := h.number_pos
  have hindex : ((number : Int) - 1).toNat = number - 1 := by omega
  rw [Source.line, if_neg (by omega), Source.lines, hindex, h.getElem?_fedLines, Option.getD_some]

/-- A line of the rest of a text, after a first line. -/
theorem HasLine.after (first : List Char) (h : HasLine cs number start line) :
    HasLine (first ++ '\n' :: cs) (first.count '\n' + 1 + number) (first.length + 1 + start)
      line := by
  cases h with
  | @mk before line after hbefore hline hafter =>
    have hends : first ++ '\n' :: before = [] ∨ (first ++ '\n' :: before).getLast? = some '\n' := by
      refine .inr ?_
      rcases hbefore with rfl | hbefore
      · exact List.getLast?_concat
      · rw [List.getLast?_append, List.getLast?_cons, hbefore]
        rfl
    have hmk := HasLine.mk hends hline hafter
    rw [List.append_assoc, List.count_append, List.count_cons_self, List.length_append,
      List.length_cons] at hmk
    have hnumber : first.count '\n' + 1 + (before.count '\n' + 1) =
        first.count '\n' + (before.count '\n' + 1) + 1 := by omega
    have hstart : first.length + 1 + before.length = first.length + (before.length + 1) := by omega
    rw [hnumber, hstart]
    exact hmk

theorem hasLine_first {after : List Char} (h : '\n' ∉ line)
    (hafter : after = [] ∨ after.head? = some '\n') : HasLine (line ++ after) 1 0 line := by
  have hnothing : ([] : List Char) = [] ∨ [].getLast? = some '\n' := .inl rfl
  exact .mk hnothing h hafter

/-- Every line of a source has its number and a start. -/
theorem hasLine_of_fedLines {k : Nat} (h : (Text.fedLines cs)[k]? = some line) :
    ∃ start, HasLine cs (k + 1) start line := by
  induction cs using Text.line_induction generalizing k with
  | last single hsingle =>
    rw [Text.fedLines_of_unbroken hsingle, List.getElem?_singleton] at h
    split at h
    · next hk =>
      subst hk
      cases h
      have hline := hasLine_first hsingle (.inl rfl)
      rw [List.append_nil] at hline
      exact ⟨0, hline⟩
    · cases h
  | feed first rest hfirst ih =>
    rw [Text.fedLines_append_feed, Text.fedLines_of_unbroken hfirst, List.singleton_append] at h
    cases k with
    | zero =>
      cases h
      exact ⟨0, hasLine_first hfirst (.inr rfl)⟩
    | succ k =>
      obtain ⟨start, hline⟩ := ih h
      have hafter := hline.after first
      rw [List.count_eq_zero.2 hfirst, Nat.zero_add, Nat.add_comm 1] at hafter
      exact ⟨_, hafter⟩

/-- Every offset of a text, its end included, belongs to a line. -/
theorem exists_hasLine {offset : Nat} (h : offset ≤ cs.length) :
    ∃ number start line, HasLine cs number start line ∧ start ≤ offset ∧
      offset ≤ start + line.length := by
  induction cs using Text.line_induction generalizing offset with
  | last single hsingle =>
    have hline := hasLine_first hsingle (.inl rfl)
    rw [List.append_nil] at hline
    exact ⟨1, 0, single, hline, Nat.zero_le _, by omega⟩
  | feed first rest hfirst ih =>
    by_cases hle : offset ≤ first.length
    · exact ⟨1, 0, first, hasLine_first hfirst (.inr rfl), Nat.zero_le _, by omega⟩
    · rw [List.length_append, List.length_cons] at h
      have hrest : offset - (first.length + 1) ≤ rest.length := by omega
      obtain ⟨number, start, line, hline, hfrom, hto⟩ := ih hrest
      exact ⟨_, _, line, hline.after first, by omega, by omega⟩

end Lines

end LetPrint
