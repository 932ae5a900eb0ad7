import LetPrint.Proofs.Tokenization

/-! Which characters the lexer knows.

Blanks, the characters of words and eight symbols make up the alphabet. A text over the
alphabet is cut to its end (`exists_cut`). A character outside of it is part of no token, and
every token before it ends there just as it does at the end of a text (`scanFrom_foreign`).
A text is therefore refused exactly if it holds such a character; the first one is reported,
and the tokens before it are those of the text up to there (`tokenize_refuses_iff`). -/
namespace LetPrint

/-- The characters that texts of programs are made of. -/
def InAlphabet (c : Char) : Prop :=
  Text.isBlank c ∨ isWordChar c ∨ c ∈ ['=', '+', '-', '*', '/', ';', '(', ')']

instance : DecidablePred InAlphabet := fun _ => inferInstanceAs (Decidable (_ ∨ _))

section Characters
variable {c : Char}

theorem isSome_symbolKind?_iff :
    (symbolKind? c).isSome = true ↔ c ∈ ['=', '+', '-', '*', '/', ';', '(', ')'] := by
  constructor
  · intro h
    unfold symbolKind? at h
    split at h <;> simp at h ⊢
  · intro h
    simp only [List.mem_cons, List.not_mem_nil, or_false] at h
    rcases h with rfl | rfl | rfl | rfl | rfl | rfl | rfl | rfl <;> rfl

/-- No lexeme begins with a character outside the alphabet, and one with every other. -/
theorem firstLexeme?_eq_none_iff (cs : List Char) :
    firstLexeme? (c :: cs) = none ↔ ¬ InAlphabet c := by
  unfold InAlphabet
  rw [isWordChar_iff, ← isSome_symbolKind?_iff]
  unfold firstLexeme?
  by_cases hblank : Text.isBlank c = true
  · simp [hblank]
  · by_cases hstart : isWordStart c = true
    · simp [hblank, hstart]
    · by_cases hdigit : c.isDigit = true
      · simp [hblank, hstart, hdigit]
      · simp [hblank, hstart, hdigit]

theorem growsBy_of_not_inAlphabet (h : ¬ InAlphabet c) (kind : TokenKind) :
    kind.growsBy c = false := by
  apply growsBy_of_not_isWordChar
  by_contra hc
  exact h (.inr (.inl (by simpa using hc)))

end Characters

/-! ### Texts over the alphabet -/

section Texts
variable {offset : Nat} {cs : List Char} {tokens : List Token}

/-- A text over the alphabet is cut to its end. -/
theorem exists_cut (h : ∀ c ∈ cs, InAlphabet c) (offset : Nat) :
    ∃ tokens, Cut offset cs tokens := by
  induction hn : cs.length using Nat.strongRecOn generalizing offset cs with
  | _ n ih =>
    cases cs with
    | nil => exact ⟨[], .nil offset⟩
    | cons c cs =>
      by_cases hc : Text.isBlank c = true
      · have hlater : ∀ d ∈ cs, InAlphabet d := fun d hd => h d (List.mem_cons_of_mem c hd)
        obtain ⟨tokens, hcut⟩ := ih cs.length (by rw [← hn]; exact Nat.lt_succ_self _) hlater
          (offset + 1) rfl
        exact ⟨tokens, .blank hc hcut⟩
      · have hfirst : firstLexeme? (c :: cs) ≠ none := by
          rw [Ne, firstLexeme?_eq_none_iff, not_not]
          exact h c (List.mem_cons_self ..)
        obtain ⟨found, hfound⟩ := Option.ne_none_iff_exists'.1 hfirst
        obtain ⟨kind, text, rest, happ, hspells, hrest, hshort⟩ :=
          exists_spelled_of_firstLexeme? (by simpa using hc) hfound
        rw [← happ] at h ⊢
        obtain ⟨tokens, hcut⟩ := ih rest.length (by rw [← hn]; exact hshort)
          (fun d hd => h d (List.mem_append_right text hd)) (offset + text.length) rfl
        exact ⟨_, .token hspells hrest hcut⟩

/-- **A foreign character ends the text** for all tokens before it. -/
theorem scanFrom_foreign (h : Cut offset cs tokens) {c : Char} (hc : ¬ InAlphabet c)
    (rest : List Char) :
    scanFrom offset (cs ++ c :: rest) = ⟨tokens, some ⟨offset + cs.length, c⟩⟩ := by
  induction h with
  | nil offset => exact scanFrom_of_none offset ((firstLexeme?_eq_none_iff rest).2 hc)
  | blank hblank _ ih =>
    rw [List.cons_append, scanFrom_blank _ _ hblank, ih, List.length_cons, Nat.add_assoc,
      Nat.add_comm 1]
  | @token offset kind text more tokens hspells hmore _ ih =>
    have hends : ∀ d, (more ++ c :: rest).head? = some d → kind.growsBy d = false := by
      cases more with
      | nil => exact growsBy_of_head? (growsBy_of_not_inAlphabet hc kind)
      | cons d ds => exact fun e he => hmore e he
    rw [List.append_assoc, scanFrom_placed _ hspells hends, ih, List.length_append, Nat.add_assoc]

end Texts

/-! ### The first foreign character -/

/-- The character stands at its position in a text and is the first one there that is not in
the alphabet. -/
structure UnknownCharacter.IsFirst (u : UnknownCharacter) (cs : List Char) : Prop where
  here : cs[u.position]? = some u.char
  foreign : ¬ InAlphabet u.char
  before : ∀ c ∈ cs.take u.position, InAlphabet c

section First
variable {cs : List Char} {u : UnknownCharacter}

/-- A text with a foreign character has a first one. -/
theorem exists_isFirst {c : Char} (hmem : c ∈ cs) (hc : ¬ InAlphabet c) :
    ∃ u : UnknownCharacter, u.IsFirst cs := by
  cases hfind : cs.find? (¬ InAlphabet ·) with
  | none =>
    have := List.find?_eq_none.1 hfind c hmem
    exact absurd hc (by simpa using this)
  | some d =>
    obtain ⟨hd, before, after, rfl, hbefore⟩ := List.find?_eq_some_iff_append.1 hfind
    refine ⟨⟨before.length, d⟩, ?_, by simpa using hd, ?_⟩
    · rw [List.getElem?_append_right (Nat.le_refl _), Nat.sub_self]
      rfl
    · rw [List.take_left]
      intro e he
      simpa using hbefore e he

/-- The lexer stops at the first foreign character, with the tokens of the text before it. -/
theorem UnknownCharacter.IsFirst.scan (h : u.IsFirst cs) :
    ∃ tokens, Cut 0 (cs.take u.position) tokens ∧ LetPrint.scan cs = ⟨tokens, some u⟩ := by
  obtain ⟨tokens, hcut⟩ := exists_cut h.before 0
  refine ⟨tokens, hcut, ?_⟩
  obtain ⟨hlt, hchar⟩ := List.getElem?_eq_some_iff.1 h.here
  have hsplit : cs = cs.take u.position ++ u.char :: cs.drop (u.position + 1) := by
    rw [← hchar, ← List.drop_eq_getElem_cons hlt, List.take_append_drop]
  have hscan := scanFrom_foreign hcut h.foreign (cs.drop (u.position + 1))
  rw [← hsplit, List.length_take, Nat.min_eq_left (Nat.le_of_lt hlt), Nat.zero_add] at hscan
  exact hscan

theorem stoppedBy_scan_iff : (scan cs).stoppedBy = some u ↔ u.IsFirst cs := by
  constructor
  · intro h
    by_cases hall : ∀ c ∈ cs, InAlphabet c
    · obtain ⟨tokens, hcut⟩ := exists_cut hall 0
      rw [scan, scanFrom_of_cut hcut] at h
      cases h
    · obtain ⟨c, hmem, hc⟩ : ∃ c ∈ cs, ¬ InAlphabet c := by simpa using hall
      obtain ⟨first, hfirst⟩ := exists_isFirst hmem hc
      obtain ⟨tokens, _, hscan⟩ := hfirst.scan
      rw [hscan] at h
      cases h
      exact hfirst
  · intro h
    obtain ⟨tokens, _, hscan⟩ := h.scan
    rw [hscan]

end First

/-! ### What the lexer refuses -/

theorem tokenize_eq_error_iff {l : Lexer} {u : UnknownCharacter} :
    l.tokenize.2 = .error u ↔ u.IsFirst l.source.chars := by
  rw [← stoppedBy_scan_iff]
  unfold Lexer.tokenize
  cases scan l.source.chars with
  | mk tokens stop => cases stop <;> simp

/-- What a lexer holds after it has refused its text. -/
theorem tokenize_of_isFirst {l : Lexer} {u : UnknownCharacter} (h : u.IsFirst l.source.chars) :
    l.tokenize.1.index = u.position ∧
      (Lexer.ofText (String.ofList (l.source.chars.take u.position))).tokenize.2 =
        .ok l.tokenize.1.tokens := by
  obtain ⟨tokens, hcut, hscan⟩ := h.scan
  have hafter : l.tokenize.1 = {l with tokens := tokens, index := u.position} := by
    unfold Lexer.tokenize
    rw [hscan]
  rw [hafter, tokenize_eq_ok_iff, String.toList_ofList]
  exact ⟨rfl, hcut⟩

/-- **A text is refused for its characters alone**: exactly if it holds one outside the alphabet.
The first of these is reported with its offset, where the lexer stays, and the tokens found are
those of the text up to there. It does not matter what the lexer held before. -/
theorem tokenize_refuses_iff (l : Lexer) :
    ((∃ u, l.tokenize.2 = .error u) ↔ ∃ c ∈ l.source.chars, ¬ InAlphabet c) ∧
      ∀ u, l.tokenize.2 = .error u →
        u.IsFirst l.source.chars ∧
        (∃ detail, u.diagnostic l.source = .lexical u.position detail) ∧
        l.tokenize.1.index = u.position ∧
        (Lexer.ofText (String.ofList (l.source.chars.take u.position))).tokenize.2 =
          .ok l.tokenize.1.tokens := by
  constructor
  · simp only [tokenize_eq_error_iff]
    constructor
    · rintro ⟨u, hfirst⟩
      exact ⟨u.char, List.mem_of_getElem? hfirst.here, hfirst.foreign⟩
    · rintro ⟨c, hmem, hc⟩
      exact exists_isFirst hmem hc
  · intro u h
    have hfirst := tokenize_eq_error_iff.1 h
    exact ⟨hfirst, ⟨_, rfl⟩, tokenize_of_isFirst hfirst⟩

/-- A letter outside the alphabet right after a keyword. -/
theorem tokenize_refuses_iff_accentedText :
    (Lexer.ofText "1 let\u00e9").tokenize.2 = .error ⟨5, '\u00e9'⟩ ∧
      (Lexer.ofText "1 let\u00e9").tokenize.1.index = 5 ∧
      (Lexer.ofText "1 let").tokenize.2 = .ok (Lexer.ofText "1 let\u00e9").tokenize.1.tokens := by
  have h : (Lexer.ofText "1 let\u00e9").tokenize.2 = .error ⟨5, '\u00e9'⟩ := by decide +kernel
  obtain ⟨_, _, hindex, htokens⟩ := (tokenize_refuses_iff _).2 _ h
  exact ⟨h, hindex, htokens⟩

end LetPrint
