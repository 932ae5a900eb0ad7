import LetPrint.Proofs.Spelling

/-! Where the lexer cuts a text.

`Cut offset text tokens` says how tokens lie in a text that begins at an offset:
blanks, then a spelled text that the next character does not make longer, and so on
to the end. The lexer reads a text to its end exactly if it can be cut in this way,
and its tokens are those of the cut (`scanFrom_eq_iff`). -/
namespace LetPrint

/-- The token of a kind that begins at an offset. -/
def Token.placed (kind : TokenKind) (offset : Nat) (text : List Char) : Token :=
  ⟨kind, String.ofList text, ⟨offset, (offset + text.length : Nat)⟩⟩

/-- A text that begins at an offset, cut into blanks and tokens. -/
inductive Cut : Nat → List Char → List Token → Prop
  | nil (offset : Nat) : Cut offset [] []
  | blank {offset : Nat} {c : Char} {cs : List Char} {tokens : List Token} :
    Text.isBlank c → Cut (offset + 1) cs tokens → Cut offset (c :: cs) tokens
  | token {offset : Nat} {kind : TokenKind} {text rest : List Char} {tokens : List Token} :
    kind.Spells text → (∀ c, rest.head? = some c → kind.growsBy c = false) →
      Cut (offset + text.length) rest tokens →
      Cut offset (text ++ rest) (.placed kind offset text :: tokens)

/-! ### One lexeme at a time -/

theorem scanFrom_nil (offset : Nat) : scanFrom offset [] = ⟨[], none⟩ := by
  rw [scanFrom.eq_def]

theorem scanFrom_of_lexeme {cs rest : List Char} {lexeme : Lexeme} (offset : Nat)
    (h : firstLexeme? cs = some (lexeme, rest)) :
    scanFrom offset cs =
      let later := scanFrom (offset + lexeme.text.length) rest
      {later with tokens := (lexeme.token? offset).toList ++ later.tokens} := by
  cases cs with
  | nil => simp [firstLexeme?] at h
  | cons c cs =>
    rw [scanFrom.eq_def]
    dsimp only
    split
    · next hnone => rw [h] at hnone; cases hnone
    · next found rest' hfound =>
      rw [h] at hfound
      cases hfound
      rfl

theorem scanFrom_of_none {c : Char} {cs : List Char} (offset : Nat)
    (h : firstLexeme? (c :: cs) = none) : scanFrom offset (c :: cs) = ⟨[], some ⟨offset, c⟩⟩ := by
  rw [scanFrom.eq_def]
  dsimp only
  split
  · rfl
  · next found rest hfound => rw [h] at hfound; cases hfound

theorem scanFrom_placed {kind : TokenKind} {text rest : List Char} (offset : Nat)
    (h : kind.Spells text) (hrest : ∀ c, rest.head? = some c → kind.growsBy c = false) :
    scanFrom offset (text ++ rest) =
      let later := scanFrom (offset + text.length) rest
      {later with tokens := .placed kind offset text :: later.tokens} :=
  scanFrom_of_lexeme offset (firstLexeme?_of_spells h hrest)

theorem firstLexeme?_blank {c : Char} (cs : List Char) (hc : Text.isBlank c) :
    firstLexeme? (c :: cs) =
      some (⟨none, c :: cs.takeWhile Text.isBlank⟩, cs.dropWhile Text.isBlank) := by
  simp only [firstLexeme?, hc, if_true]

/-- A blank at the front only moves the rest on. -/
theorem scanFrom_blank {c : Char} (offset : Nat) (cs : List Char) (hc : Text.isBlank c) :
    scanFrom offset (c :: cs) = scanFrom (offset + 1) cs := by
  rw [scanFrom_of_lexeme offset (firstLexeme?_blank cs hc)]
  cases cs with
  | nil => simp [Lexeme.token?, scanFrom_nil]
  | cons d ds =>
    by_cases hd : Text.isBlank d = true
    · rw [scanFrom_of_lexeme (offset + 1) (firstLexeme?_blank ds hd)]
      simp only [Lexeme.token?, List.takeWhile_cons_of_pos hd, List.dropWhile_cons_of_pos hd,
        List.length_cons]
      have : offset + 1 + ((ds.takeWhile Text.isBlank).length + 1) =
          offset + ((ds.takeWhile Text.isBlank).length + 1 + 1) := by omega
      rw [this]
      rfl
    · simp [Lexeme.token?, List.takeWhile_cons_of_neg hd, List.dropWhile_cons_of_neg hd]

/-! ### Cuts and scans -/

theorem scanFrom_of_cut {offset : Nat} {cs : List Char} {tokens : List Token}
    (h : Cut offset cs tokens) : scanFrom offset cs = ⟨tokens, none⟩ := by
  induction h with
  | nil offset => exact scanFrom_nil offset
  | blank hc _ ih => rw [scanFrom_blank _ _ hc, ih]
  | token hspells hrest _ ih => rw [scanFrom_placed _ hspells hrest, ih]

theorem cut_of_scanFrom {offset : Nat} {cs : List Char} {tokens : List Token}
    (h : scanFrom offset cs = ⟨tokens, none⟩) : Cut offset cs tokens := by
  induction hn : cs.length using Nat.strongRecOn generalizing offset cs tokens with
  | _ n ih =>
    cases cs with
    | nil =>
      rw [scanFrom_nil] at h
      cases h
      exact .nil offset
    | cons c cs =>
      by_cases hc : Text.isBlank c = true
      · rw [scanFrom_blank offset cs hc] at h
        exact .blank hc (ih cs.length (by rw [← hn]; exact Nat.lt_succ_self _) h rfl)
      · cases hfirst : firstLexeme? (c :: cs) with
        | none =>
          rw [scanFrom_of_none offset hfirst] at h
          cases h
        | some found =>
          obtain ⟨kind, text, rest, happ, hspells, hrest, hshort⟩ :=
            exists_spelled_of_firstLexeme? (by simpa using hc) hfirst
          rw [← happ] at h ⊢
          rw [scanFrom_placed offset hspells hrest] at h
          cases hlater : scanFrom (offset + text.length) rest with
          | mk later stop =>
            rw [hlater] at h
            cases h
            refine .token hspells hrest (ih rest.length ?_ hlater rfl)
            rw [← hn]
            exact hshort

/-- **The lexer's tokens are those of the cut of its text.** -/
theorem scanFrom_eq_iff {offset : Nat} {cs : List Char} {tokens : List Token} :
    scanFrom offset cs = ⟨tokens, none⟩ ↔ Cut offset cs tokens :=
  ⟨cut_of_scanFrom, scanFrom_of_cut⟩

end LetPrint
