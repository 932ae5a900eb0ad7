import LetPrint.Text.Blank
import LetPrint.Text.Lines

/-! How a listing is laid out.

The words of a line are its pieces between blanks, so a text without blanks is one word
(`words_of_unbroken`), and a blank after it begins the next (`words_cons`). Every line end
is a blank: such a text lies on one line, and a line feed closes the line that it ends
(`brokenLines_append_feed`). -/
namespace LetPrint.Text

/-- A text that can be a word: it is not empty, and none of its characters is blank. -/
def Unbroken (cs : List Char) : Prop :=
  cs ≠ [] ∧ ∀ c ∈ cs, isBlank c = false

/-! ### Words -/

theorem isBlank_of_mem_splitOnP {cs word : List Char} (h : word ∈ cs.splitOnP isBlank) :
    ∀ c ∈ word, isBlank c = false := by
  induction cs generalizing word with
  | nil =>
    rw [List.splitOnP_nil, List.mem_singleton] at h
    subst h
    exact fun c hc => absurd hc List.not_mem_nil
  | cons first cs ih =>
    rw [List.splitOnP_cons_eq_if_modifyHead] at h
    by_cases hfirst : isBlank first = true
    · rw [if_pos hfirst] at h
      rcases List.mem_cons.1 h with rfl | h
      · exact fun c hc => absurd hc List.not_mem_nil
      · exact ih h
    · rw [if_neg hfirst] at h
      obtain ⟨piece, pieces, hpieces⟩ :=
        List.exists_cons_of_ne_nil (List.splitOnP_ne_nil isBlank cs)
      rw [hpieces, List.modifyHead_cons] at h
      rw [hpieces] at ih
      rcases List.mem_cons.1 h with rfl | h
      · intro c hc
        rcases List.mem_cons.1 hc with rfl | hc
        · exact Bool.eq_false_iff.2 hfirst
        · exact ih (List.mem_cons_self ..) c hc
      · exact ih (List.mem_cons_of_mem piece h)

theorem unbroken_of_mem_words {cs word : List Char} (h : word ∈ words cs) : Unbroken word := by
  obtain ⟨hpiece, hne⟩ := List.mem_filter.1 h
  refine ⟨?_, isBlank_of_mem_splitOnP hpiece⟩
  rintro rfl
  exact absurd hne (by decide)

/-- A text without blanks is one word. -/
theorem words_of_unbroken {word : List Char} (h : Unbroken word) : words word = [word] := by
  have hne : word.isEmpty = false := by
    rw [List.isEmpty_eq_false_iff]
    exact h.1
  rw [words, List.splitOnP_eq_singleton h.2, List.filter_cons_of_pos (by rw [hne]; rfl),
    List.filter_nil]

/-- A blank ends a word, and the other words come after it. -/
theorem words_cons {word : List Char} (h : Unbroken word) {c : Char} (hc : isBlank c = true)
    (rest : List Char) : words (word ++ c :: rest) = word :: words rest := by
  have hfirst := words_of_unbroken h
  rw [words] at hfirst
  rw [words, List.splitOnP_append_cons word rest hc, List.filter_append, hfirst]
  rfl

/-! ### Lines -/

theorem isBlank_of_isLineEnd {c : Char} (h : isLineEnd c = true) : isBlank c = true := by
  simp only [isLineEnd, Bool.or_eq_true, Bool.and_eq_true, decide_eq_true_eq, beq_iff_eq] at h
  simp only [isBlank, Bool.or_eq_true, Bool.and_eq_true, decide_eq_true_eq, beq_iff_eq]
  omega

theorem brokenLines_feed (rest : List Char) :
    brokenLines ('\n' :: rest) = [] :: brokenLines rest := by
  rw [brokenLines.eq_def]
  rfl

theorem brokenLines_cons {c : Char} (hc : isLineEnd c = false) (cs : List Char) :
    brokenLines (c :: cs) =
      match brokenLines cs with
      | [] => [[c]]
      | line :: lines => (c :: line) :: lines := by
  have hreturn : c ≠ '\r' := by
    rintro rfl
    exact absurd hc (by decide)
  rw [brokenLines.eq_def]
  split
  · next heq => cases heq
  · next heq =>
    cases heq
    exact absurd rfl hreturn
  · next heq =>
    cases heq
    rw [hc]
    rfl

/-- A line feed closes the line that it ends. -/
theorem brokenLines_append_feed {line : List Char} (h : ∀ c ∈ line, isLineEnd c = false)
    (rest : List Char) : brokenLines (line ++ '\n' :: rest) = line :: brokenLines rest := by
  induction line with
  | nil => exact brokenLines_feed rest
  | cons c line ih =>
    rw [List.cons_append, brokenLines_cons (h c (List.mem_cons_self ..)),
      ih fun d hd => h d (List.mem_cons_of_mem c hd)]

end LetPrint.Text
