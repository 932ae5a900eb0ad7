import LetPrint.Token.Lexer
import Mathlib.Data.List.TakeWhile

/-! How tokens are spelled.

Each kind of token has its texts (`TokenKind.Spells`), and some characters would make
such a text longer (`TokenKind.growsBy`). The front lexeme of a text is the one
spelled text there that the next character does not make longer
(`firstLexeme?_of_spells`, `spells_of_firstLexeme?`), and no character of a spelled
text is blank. -/
namespace LetPrint

/-- A word: a letter or an underscore, then letters, underscores and digits. -/
def IsWord (cs : List Char) : Prop :=
  ∃ first others, cs = first :: others ∧ isWordStart first ∧ ∀ c ∈ others, isWordChar c

namespace TokenKind

/-- The texts that a kind of token has. -/
def Spells : TokenKind → List Char → Prop
  | letWord, cs => cs = "let".toList
  | printWord, cs => cs = "print".toList
  | ident, cs => IsWord cs ∧ cs ≠ "let".toList ∧ cs ≠ "print".toList
  | number, cs => cs ≠ [] ∧ ∀ c ∈ cs, c.isDigit
  | equals, cs => cs = ['=']
  | operator, cs => cs = ['+'] ∨ cs = ['-'] ∨ cs = ['*'] ∨ cs = ['/']
  | semicolon, cs => cs = [';']
  | openParen, cs => cs = ['(']
  | closeParen, cs => cs = [')']

/-- Whether a character right after a text of the kind would belong to it. -/
def growsBy : TokenKind → Char → Bool
  | letWord, c | printWord, c | ident, c => isWordChar c
  | number, c => c.isDigit
  | _, _ => false

end TokenKind

theorem isWord_let : IsWord "let".toList :=
  ⟨'l', ['e', 't'], rfl, by decide, List.all_eq_true.1 rfl⟩

theorem isWord_print : IsWord "print".toList :=
  ⟨'p', ['r', 'i', 'n', 't'], rfl, by decide, List.all_eq_true.1 rfl⟩

/-! ### Classes of characters -/

theorem isUpper_iff {c : Char} : c.isUpper = true ↔ 65 ≤ c.toNat ∧ c.toNat ≤ 90 := by
  show decide (c.val ≥ 'A'.val ∧ c.val ≤ 'Z'.val) = true ↔ _
  rw [decide_eq_true_iff]
  exact Iff.rfl

theorem isLower_iff {c : Char} : c.isLower = true ↔ 97 ≤ c.toNat ∧ c.toNat ≤ 122 := by
  show (decide (c.val ≥ 'a'.val) && decide (c.val ≤ 'z'.val)) = true ↔ _
  rw [Bool.and_eq_true, decide_eq_true_iff, decide_eq_true_iff]
  exact Iff.rfl

theorem isDigit_iff {c : Char} : c.isDigit = true ↔ 48 ≤ c.toNat ∧ c.toNat ≤ 57 :=
  Char.isDigit_iff_toNat

/-- The code points at which a word may begin. -/
theorem isWordStart_iff {c : Char} :
    isWordStart c = true ↔
      (65 ≤ c.toNat ∧ c.toNat ≤ 90) ∨ (97 ≤ c.toNat ∧ c.toNat ≤ 122) ∨ c.toNat = 95 := by
  show ((c.isUpper || c.isLower) || c == '_') = true ↔ _
  rw [Bool.or_eq_true, Bool.or_eq_true, isUpper_iff, isLower_iff, beq_iff_eq, or_assoc,
    ← Char.toNat_inj]
  exact Iff.rfl

/-- A character of a word is one that may begin it, or a digit. -/
theorem isWordChar_iff {c : Char} : isWordChar c = true ↔ isWordStart c = true ∨ c.isDigit = true := by
  show ((c.isAlpha || c.isDigit) || c == '_') = true ↔ (c.isAlpha || c == '_') = true ∨ _
  rw [Bool.or_eq_true, Bool.or_eq_true, Bool.or_eq_true, or_right_comm]

theorem isWordChar_of_isWordStart {c : Char} (h : isWordStart c) : isWordChar c :=
  isWordChar_iff.2 (.inl h)

theorem isWordChar_of_isDigit {c : Char} (h : c.isDigit) : isWordChar c :=
  isWordChar_iff.2 (.inr h)

theorem isBlank_of_isWordChar {c : Char} (h : isWordChar c) : Text.isBlank c = false := by
  rw [isWordChar_iff, isWordStart_iff, isDigit_iff] at h
  simp only [Text.isBlank, Bool.or_eq_false_iff, Bool.and_eq_false_iff, decide_eq_false_iff_not,
    beq_eq_false_iff_ne]
  omega

theorem isWordStart_of_isDigit {c : Char} (h : c.isDigit) : isWordStart c = false := by
  rw [isDigit_iff] at h
  rw [Bool.eq_false_iff, Ne, isWordStart_iff]
  omega

/-- A character that is a token by itself begins no other lexeme. -/
theorem symbolKind?_cases {c : Char} {kind : TokenKind} (h : symbolKind? c = some kind) :
    kind.Spells [c] ∧ kind.growsBy = fun _ => false := by
  simp only [symbolKind?] at h
  split at h <;> cases h <;> simp [TokenKind.Spells, funext_iff, TokenKind.growsBy]

/-! ### The front lexeme -/

/-- A run of items in a class ends where the class does. -/
theorem takeWhile_dropWhile_append {α : Type} {p : α → Bool} {run rest : List α}
    (hrun : ∀ c ∈ run, p c) (hrest : ∀ c, rest.head? = some c → p c = false) :
    (run ++ rest).takeWhile p = run ∧ (run ++ rest).dropWhile p = rest := by
  rw [List.takeWhile_append_of_pos hrun, List.dropWhile_append_of_pos hrun]
  cases rest with
  | nil => simp
  | cons c rest => simp [hrest c rfl]

theorem not_head?_dropWhile (p : Char → Bool) (cs : List Char) (c : Char)
    (h : (cs.dropWhile p).head? = some c) : p c = false := by
  have := List.head?_dropWhile_not p cs
  rw [h] at this
  exact this

theorem firstLexeme?_word {word rest : List Char} (h : IsWord word)
    (hrest : ∀ c, rest.head? = some c → isWordChar c = false) :
    firstLexeme? (word ++ rest) = some (⟨some (wordKind word), word⟩, rest) := by
  obtain ⟨first, others, rfl, hfirst, hothers⟩ := h
  obtain ⟨htake, hdrop⟩ := takeWhile_dropWhile_append hothers hrest
  have hblank := isBlank_of_isWordChar (isWordChar_of_isWordStart hfirst)
  simp only [List.cons_append, firstLexeme?, hblank, hfirst, htake, hdrop, if_true,
    Bool.false_eq_true, if_false]

theorem firstLexeme?_number {digits rest : List Char} (hne : digits ≠ [])
    (h : ∀ c ∈ digits, c.isDigit) (hrest : ∀ c, rest.head? = some c → c.isDigit = false) :
    firstLexeme? (digits ++ rest) = some (⟨some .number, digits⟩, rest) := by
  obtain ⟨first, others, rfl⟩ := List.exists_cons_of_ne_nil hne
  have hfirst := h first (List.mem_cons_self ..)
  obtain ⟨htake, hdrop⟩ :=
    takeWhile_dropWhile_append (fun c hc => h c (List.mem_cons_of_mem first hc)) hrest
  have hblank := isBlank_of_isWordChar (isWordChar_of_isDigit hfirst)
  have hstart := isWordStart_of_isDigit hfirst
  simp only [List.cons_append, firstLexeme?, hblank, hstart, hfirst, htake, hdrop, if_true,
    Bool.false_eq_true, if_false]

/-- **A spelled text is the front lexeme** if the next character does not make it longer. -/
theorem firstLexeme?_of_spells {kind : TokenKind} {text rest : List Char} (h : kind.Spells text)
    (hrest : ∀ c, rest.head? = some c → kind.growsBy c = false) :
    firstLexeme? (text ++ rest) = some (⟨some kind, text⟩, rest) := by
  cases kind with
  | letWord =>
    subst h
    exact firstLexeme?_word isWord_let hrest
  | printWord =>
    subst h
    exact firstLexeme?_word isWord_print hrest
  | ident =>
    obtain ⟨hword, hlet, hprint⟩ := h
    have hkind : wordKind text = .ident := by rw [wordKind, if_neg hlet, if_neg hprint]
    rw [firstLexeme?_word hword hrest, hkind]
  | number => exact firstLexeme?_number h.1 h.2 hrest
  | operator => rcases h with rfl | rfl | rfl | rfl <;> rfl
  | equals | semicolon | openParen | closeParen => subst h; rfl

theorem spells_wordKind {word : List Char} (h : IsWord word) : (wordKind word).Spells word := by
  rw [wordKind]
  split
  · next hlet => exact hlet
  · split
    · next hprint => exact hprint
    · next hlet hprint => exact ⟨h, hlet, hprint⟩

theorem growsBy_wordKind (word : List Char) (c : Char) :
    (wordKind word).growsBy c = isWordChar c := by
  rw [wordKind]
  split
  · rfl
  · split <;> rfl

theorem growsBy_of_head? {kind : TokenKind} {c : Char} {rest : List Char}
    (hc : kind.growsBy c = false) : ∀ d, (c :: rest).head? = some d → kind.growsBy d = false := by
  intro d hd
  cases hd
  exact hc

theorem growsBy_of_not_isWordChar {c : Char} (h : isWordChar c = false) (kind : TokenKind) :
    kind.growsBy c = false := by
  have hdigit : c.isDigit = false := by
    by_contra hc
    rw [isWordChar_of_isDigit (by simpa using hc)] at h
    cases h
  cases kind <;> first | exact h | exact hdigit | rfl

/-- **The front lexeme is a spelled text** that the next character does not make longer. -/
theorem spells_of_firstLexeme? {cs text rest : List Char} {kind : TokenKind}
    (h : firstLexeme? cs = some (⟨some kind, text⟩, rest)) :
    kind.Spells text ∧ ∀ c, rest.head? = some c → kind.growsBy c = false := by
  cases cs with
  | nil => simp [firstLexeme?] at h
  | cons first cs =>
    simp only [firstLexeme?] at h
    split at h
    · cases h
    · split at h
      · next hstart =>
        cases h
        refine ⟨spells_wordKind ⟨first, _, rfl, hstart, fun c hc => ?_⟩, fun c hc => ?_⟩
        · exact List.mem_takeWhile_imp hc
        · rw [growsBy_wordKind]
          exact not_head?_dropWhile isWordChar cs c hc
      · split at h
        · next hdigit =>
          cases h
          refine ⟨⟨List.cons_ne_nil _ _, fun c hc => ?_⟩, not_head?_dropWhile Char.isDigit cs⟩
          rcases List.mem_cons.1 hc with rfl | hc
          · exact hdigit
          · exact List.mem_takeWhile_imp hc
        · obtain ⟨found, hfound, heq⟩ := Option.map_eq_some_iff.1 h
          cases heq
          obtain ⟨hspells, hgrows⟩ := symbolKind?_cases hfound
          exact ⟨hspells, fun c _ => by rw [hgrows]⟩

/-- Only blanks have no kind. -/
theorem kind_of_firstLexeme? {c : Char} {cs rest : List Char} {lexeme : Lexeme}
    (hc : Text.isBlank c = false) (h : firstLexeme? (c :: cs) = some (lexeme, rest)) :
    ∃ kind, lexeme.kind = some kind := by
  simp only [firstLexeme?, hc, Bool.false_eq_true, if_false] at h
  split at h
  · cases h
    exact ⟨_, rfl⟩
  · split at h
    · cases h
      exact ⟨_, rfl⟩
    · obtain ⟨kind, _, heq⟩ := Option.map_eq_some_iff.1 h
      cases heq
      exact ⟨kind, rfl⟩

/-- A text that does not begin with a blank begins with a spelled text, if with any lexeme. -/
theorem exists_spelled_of_firstLexeme? {c : Char} {cs : List Char} {found : Lexeme × List Char}
    (hc : Text.isBlank c = false) (h : firstLexeme? (c :: cs) = some found) :
    ∃ kind text rest, text ++ rest = c :: cs ∧ TokenKind.Spells kind text ∧
      (∀ d, rest.head? = some d → kind.growsBy d = false) ∧ rest.length < (c :: cs).length := by
  obtain ⟨⟨kind?, text⟩, rest⟩ := found
  obtain ⟨kind, rfl⟩ := kind_of_firstLexeme? hc h
  obtain ⟨hspells, hrest⟩ := spells_of_firstLexeme? h
  exact ⟨kind, text, rest, (text_append_of_firstLexeme? h).1, hspells, hrest,
    length_lt_of_firstLexeme? h⟩

theorem IsWord.isWordChar {word : List Char} (h : IsWord word) : ∀ c ∈ word, isWordChar c := by
  obtain ⟨first, others, rfl, hfirst, hothers⟩ := h
  intro c hc
  rcases List.mem_cons.1 hc with rfl | hc
  · exact isWordChar_of_isWordStart hfirst
  · exact hothers c hc

/-- No character of a spelled text is blank. -/
theorem isBlank_of_spells {kind : TokenKind} {text : List Char} (h : kind.Spells text) :
    ∀ c ∈ text, Text.isBlank c = false := by
  cases kind with
  | ident => exact fun c hc => isBlank_of_isWordChar (h.1.isWordChar c hc)
  | number => exact fun c hc => isBlank_of_isWordChar (isWordChar_of_isDigit (h.2 c hc))
  | operator => rcases h with rfl | rfl | rfl | rfl <;> exact List.forall_mem_singleton.2 rfl
  | letWord =>
    subst h
    exact fun c hc => isBlank_of_isWordChar (isWord_let.isWordChar c hc)
  | printWord =>
    subst h
    exact fun c hc => isBlank_of_isWordChar (isWord_print.isWordChar c hc)
  | equals | semicolon | openParen | closeParen =>
    subst h
    exact List.forall_mem_singleton.2 rfl

theorem ne_nil_of_spells {kind : TokenKind} {text : List Char} (h : kind.Spells text) :
    text ≠ [] := by
  cases kind with
  | ident =>
    obtain ⟨⟨first, others, rfl, _⟩, _⟩ := h
    exact List.cons_ne_nil first others
  | number => exact h.1
  | operator => rcases h with rfl | rfl | rfl | rfl <;> exact List.cons_ne_nil _ _
  | letWord | printWord | equals | semicolon | openParen | closeParen =>
    subst h
    exact List.cons_ne_nil _ _

end LetPrint
