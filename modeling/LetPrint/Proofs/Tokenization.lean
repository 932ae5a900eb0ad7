import LetPrint.Proofs.Scanning

/-! The tokens of a text.

`TokensFrom` says what the tokens of a text are, without a lexer: each is a spelled
text at its place, none goes on in the next character, and between them there are
blanks and nothing else. A list of tokens obeys these rules exactly if the text can be
cut into it (`tokensFrom_iff_cut`). A text therefore has one such list at most, and it
is what the lexer returns (`tokenize_unique`). -/
namespace LetPrint

namespace Span

/-- An offset lies in a span. -/
def Covers (s : Span) (i : Nat) : Prop :=
  s.start ≤ i ∧ (i : Int) < s.stop

instance (s : Span) (i : Nat) : Decidable (s.Covers i) :=
  inferInstanceAs (Decidable (_ ∧ _))

/-- The characters of a text that lie in a span. -/
def slice (s : Span) (text : List Char) : List Char :=
  (text.take s.stop.toNat).drop s.start.toNat

end Span

/-- What tokens obey that make up a text from an offset on. -/
structure TokensFrom (first : Nat) (text : List Char) (tokens : List Token) : Prop where
  /-- No span is empty. -/
  within : ∀ t ∈ tokens, (first : Int) ≤ t.span.start ∧ t.span.start < t.span.stop ∧
    t.span.stop ≤ text.length
  /-- Spans ascend and do not overlap. -/
  ordered : tokens.Pairwise fun s t => s.span.stop ≤ t.span.start
  raw : ∀ t ∈ tokens, t.raw.toList = t.span.slice text
  outside : ∀ i c, first ≤ i → text[i]? = some c → (∀ t ∈ tokens, ¬ t.span.Covers i) →
    Text.isBlank c
  inside : ∀ i c, text[i]? = some c → (∃ t ∈ tokens, t.span.Covers i) → Text.isBlank c = false
  spelled : ∀ t ∈ tokens, t.kind.Spells t.raw.toList
  /-- No token goes on in the character after it. -/
  maximal : ∀ t ∈ tokens, ∀ c, text[t.span.stop.toNat]? = some c → t.kind.growsBy c = false

/-! ### The tokens of a cut -/

theorem TokensFrom.nil (text : List Char) : TokensFrom text.length text [] := by
  refine ⟨by simp, .nil, by simp, fun i c hi hc _ => ?_, by simp, by simp, by simp⟩
  rw [List.getElem?_eq_none hi] at hc
  cases hc

theorem TokensFrom.blank {before cs : List Char} {c : Char} {tokens : List Token}
    (h : TokensFrom (before.length + 1) (before ++ c :: cs) tokens) (hc : Text.isBlank c) :
    TokensFrom before.length (before ++ c :: cs) tokens := by
  refine ⟨fun t ht => ?_, h.ordered, h.raw, fun i d hi hd hout => ?_, h.inside, h.spelled, h.maximal⟩
  · have := h.within t ht
    omega
  · by_cases heq : i = before.length
    · subst heq
      rw [List.getElem?_append_right (Nat.le_refl _), Nat.sub_self] at hd
      cases hd
      exact hc
    · exact h.outside i d (by omega) hd hout

theorem slice_placed (kind : TokenKind) (before text rest : List Char) :
    (Token.placed kind before.length text).span.slice (before ++ (text ++ rest)) = text := by
  simp only [Token.placed, Span.slice, Int.toNat_natCast]
  rw [← List.append_assoc, List.take_left' (by simp), List.drop_left]

theorem covers_placed {kind : TokenKind} {offset i : Nat} {text : List Char} :
    (Token.placed kind offset text).span.Covers i ↔ offset ≤ i ∧ i < offset + text.length := by
  simp only [Token.placed, Span.Covers]
  omega

theorem TokensFrom.token {kind : TokenKind} {before text rest : List Char} {tokens : List Token}
    (h : TokensFrom (before.length + text.length) (before ++ (text ++ rest)) tokens)
    (hspells : kind.Spells text) (hrest : ∀ c, rest.head? = some c → kind.growsBy c = false) :
    TokensFrom before.length (before ++ (text ++ rest))
      (.placed kind before.length text :: tokens) := by
  have hpos := List.length_pos_iff.2 (ne_nil_of_spells hspells)
  constructor
  case within =>
    intro t ht
    rcases List.mem_cons.1 ht with rfl | ht
    · simp only [Token.placed, List.length_append]
      omega
    · have := h.within t ht
      omega
  case ordered =>
    refine List.pairwise_cons.2 ⟨fun t ht => ?_, h.ordered⟩
    exact (h.within t ht).1
  case raw =>
    intro t ht
    rcases List.mem_cons.1 ht with rfl | ht
    · rw [slice_placed]
      exact String.toList_ofList
    · exact h.raw t ht
  case outside =>
    intro i c hi hc hout
    refine h.outside i c ?_ hc fun t ht => hout t (List.mem_cons_of_mem _ ht)
    have := hout _ (List.mem_cons_self ..)
    rw [covers_placed] at this
    omega
  case inside =>
    intro i c hc hcovered
    obtain ⟨t, ht, hcovers⟩ := hcovered
    rcases List.mem_cons.1 ht with rfl | ht
    · rw [covers_placed] at hcovers
      rw [List.getElem?_append_right hcovers.1, List.getElem?_append_left (by omega)] at hc
      exact isBlank_of_spells hspells c (List.mem_of_getElem? hc)
    · exact h.inside i c hc ⟨t, ht, hcovers⟩
  case spelled =>
    intro t ht
    rcases List.mem_cons.1 ht with rfl | ht
    · simpa [Token.placed] using hspells
    · exact h.spelled t ht
  case maximal =>
    intro t ht c hc
    rcases List.mem_cons.1 ht with rfl | ht
    · refine hrest c ?_
      simp only [Token.placed, Int.toNat_natCast] at hc
      rw [← List.append_assoc, List.getElem?_append_right (by simp)] at hc
      simpa [List.head?_eq_getElem?] using hc
    · exact h.maximal t ht c hc

/-- The tokens of a cut obey the rules. -/
theorem TokensFrom.of_cut {offset : Nat} {cs : List Char} {tokens : List Token}
    (h : Cut offset cs tokens) {before : List Char} (hbefore : before.length = offset) :
    TokensFrom offset (before ++ cs) tokens := by
  induction h generalizing before with
  | nil offset =>
    subst hbefore
    rw [List.append_nil]
    exact .nil before
  | @blank offset c cs tokens hc _ ih =>
    subst hbefore
    have hmoved : (before ++ [c]).length = before.length + 1 := by simp
    have := ih hmoved
    rw [List.append_assoc, List.singleton_append] at this
    exact this.blank hc
  | @token offset kind text rest tokens hspells hrest _ ih =>
    subst hbefore
    have hmoved : (before ++ text).length = before.length + text.length := List.length_append
    have := ih hmoved
    rw [List.append_assoc] at this
    exact this.token hspells hrest

/-! ### The cut of some tokens -/

/-- Where no token begins, the rules hold from the next offset on. -/
theorem TokensFrom.skip {first : Nat} {text : List Char} {tokens : List Token}
    (h : TokensFrom first text tokens) (hlater : ∀ t ∈ tokens, (first : Int) < t.span.start) :
    TokensFrom (first + 1) text tokens := by
  refine ⟨fun t ht => ?_, h.ordered, h.raw, fun i c hi => h.outside i c (by omega), h.inside,
    h.spelled, h.maximal⟩
  have := h.within t ht
  have := hlater t ht
  omega

/-- After the first token, the rules hold from where it stops. -/
theorem TokensFrom.tail {first stop : Nat} {text : List Char} {t : Token} {tokens : List Token}
    (h : TokensFrom first text (t :: tokens)) (hstop : t.span.stop = stop) (hle : first ≤ stop) :
    TokensFrom stop text tokens := by
  obtain ⟨hhead, hordered⟩ := List.pairwise_cons.1 h.ordered
  have hmem : ∀ s ∈ tokens, s ∈ t :: tokens := fun s hs => List.mem_cons_of_mem t hs
  constructor
  case within =>
    intro s hs
    have := h.within s (hmem s hs)
    have := hhead s hs
    omega
  case ordered => exact hordered
  case raw => exact fun s hs => h.raw s (hmem s hs)
  case outside =>
    intro i c hi hc hout
    refine h.outside i c (by omega) hc fun s hs => ?_
    rcases List.mem_cons.1 hs with rfl | hs
    · simp only [Span.Covers]
      omega
    · exact hout s hs
  case inside =>
    intro i c hc hcovered
    obtain ⟨s, hs, hcovers⟩ := hcovered
    exact h.inside i c hc ⟨s, hmem s hs, hcovers⟩
  case spelled => exact fun s hs => h.spelled s (hmem s hs)
  case maximal => exact fun s hs => h.maximal s (hmem s hs)

/-- If not all tokens begin later, the first of them begins here. -/
theorem TokensFrom.start_eq {first : Nat} {text : List Char} {t : Token} {tokens : List Token}
    (h : TokensFrom first text (t :: tokens))
    (hnow : ¬ ∀ s ∈ t :: tokens, (first : Int) < s.span.start) : t.span.start = first := by
  have hwithin := h.within t (List.mem_cons_self ..)
  by_contra hne
  apply hnow
  intro s hs
  rcases List.mem_cons.1 hs with rfl | hs
  · omega
  · have := (List.pairwise_cons.1 h.ordered).1 s hs
    omega

/-- The token that begins here is the one placed on the characters here. -/
theorem TokensFrom.exists_placed {first : Nat} {text : List Char} {t : Token}
    {tokens : List Token} (h : TokensFrom first text (t :: tokens)) (hstart : t.span.start = first) :
    ∃ kind front, t = .placed kind first front ∧
      text.drop first = front ++ text.drop (first + front.length) := by
  have hwithin := h.within t (List.mem_cons_self ..)
  have hraw := h.raw t (List.mem_cons_self ..)
  obtain ⟨kind, raw, ⟨start, stop⟩⟩ := t
  simp only at hstart hwithin
  subst hstart
  obtain ⟨count, rfl⟩ : ∃ count : Nat, stop = (first + count : Nat) :=
    ⟨(stop - first).toNat, by omega⟩
  rw [Span.slice, Int.toNat_natCast, Int.toNat_natCast, List.drop_take,
    Nat.add_sub_cancel_left] at hraw
  have hlength : ((text.drop first).take count).length = count := by
    rw [List.length_take, List.length_drop]
    omega
  refine ⟨kind, (text.drop first).take count, ?_, ?_⟩
  · rw [Token.placed, hlength, ← hraw, String.ofList_toList]
  · rw [hlength, ← List.drop_drop, List.take_append_drop]

/-- Tokens that obey the rules cut the text from their offset on. -/
theorem TokensFrom.cut {first : Nat} {text : List Char} {tokens : List Token}
    (h : TokensFrom first text tokens) : Cut first (text.drop first) tokens := by
  induction hn : text.length - first using Nat.strongRecOn generalizing first tokens with
  | _ n ih =>
    by_cases hfirst : first < text.length
    · by_cases hlater : ∀ t ∈ tokens, (first : Int) < t.span.start
      · have hblank : Text.isBlank text[first] := by
          refine h.outside first _ (Nat.le_refl _) (List.getElem?_eq_getElem hfirst) ?_
          intro t ht hcovers
          exact absurd hcovers.1 (Int.not_le.2 (hlater t ht))
        rw [List.drop_eq_getElem_cons hfirst]
        exact .blank hblank (ih (text.length - (first + 1)) (by omega) (h.skip hlater) rfl)
      · cases tokens with
        | nil => exact absurd (by simp) hlater
        | cons t tokens =>
          obtain ⟨kind, front, rfl, hsplit⟩ := h.exists_placed (h.start_eq hlater)
          have hwithin := h.within _ (List.mem_cons_self ..)
          have hspelled := h.spelled _ (List.mem_cons_self ..)
          have hmaximal := h.maximal _ (List.mem_cons_self ..)
          simp only [Token.placed, String.toList_ofList, Int.toNat_natCast] at hwithin hspelled hmaximal
          rw [hsplit]
          refine .token hspelled (fun c hc => hmaximal c ?_) (ih _ ?_ (h.tail rfl (by omega)) rfl)
          · rw [List.head?_drop] at hc
            exact hc
          · omega
    · cases tokens with
      | nil =>
        rw [List.drop_eq_nil_of_le (Nat.le_of_not_lt hfirst)]
        exact .nil first
      | cons t tokens =>
        have := h.within t (List.mem_cons_self ..)
        omega

theorem tokensFrom_iff_cut {text : List Char} {tokens : List Token} :
    TokensFrom 0 text tokens ↔ Cut 0 text tokens := by
  constructor
  · exact TokensFrom.cut
  · intro h
    have hnothing : ([] : List Char).length = 0 := rfl
    exact TokensFrom.of_cut h hnothing

/-! ### What the lexer returns -/

theorem tokenize_eq_ok_iff {text : String} {tokens : List Token} :
    (Lexer.ofText text).tokenize.2 = .ok tokens ↔ Cut 0 text.toList tokens := by
  have hscan : scan (Lexer.ofText text).source.chars = scanFrom 0 text.toList := rfl
  rw [← scanFrom_eq_iff, Lexer.tokenize, hscan]
  cases scanFrom 0 text.toList with
  | mk found stop => cases stop <;> simp

/-- A lexer returns the tokens of its text, whatever it held before. -/
theorem Lexer.tokensFrom_of_tokenize {l : Lexer} {tokens : List Token}
    (h : l.tokenize.2 = .ok tokens) : TokensFrom 0 l.source.chars tokens := by
  have hfresh : (Lexer.ofText (String.ofList l.source.chars)).tokenize.2 = .ok tokens := by
    rw [← h]
    simp only [Lexer.tokenize, Lexer.ofText, Source.ofText, String.toList_ofList]
    cases (scan l.source.chars).stoppedBy <;> rfl
  have hcut := tokenize_eq_ok_iff.1 hfresh
  rw [String.toList_ofList] at hcut
  exact tokensFrom_iff_cut.2 hcut

/-- **The tokens that the lexer returns are the only ones that obey the rules.** -/
theorem tokenize_unique {text : String} {tokens : List Token}
    (h : (Lexer.ofText text).tokenize.2 = .ok tokens) (other : List Token) :
    TokensFrom 0 text.toList other ↔ other = tokens := by
  rw [tokensFrom_iff_cut, ← tokenize_eq_ok_iff, h]
  constructor
  · intro heq
    cases heq
    rfl
  · intro heq
    rw [heq]

/-- A word of which `let` is only the beginning, a number right before a word, a keyword
in front of a wide blank. -/
def crowdedTokens : List Token := [
  ⟨.ident, "letx", ⟨0, 4⟩⟩, ⟨.number, "12", ⟨5, 7⟩⟩, ⟨.letWord, "let", ⟨7, 10⟩⟩,
  ⟨.semicolon, ";", ⟨11, 12⟩⟩]

theorem cut_crowdedTokens : Cut 0 "letx 12let\u2003;".toList crowdedTokens := by
  have hchars : "letx 12let\u2003;".toList = ['l', 'e', 't', 'x'] ++ ' ' ::
      (['1', '2'] ++ (['l', 'e', 't'] ++ '\u2003' :: ([';'] ++ []))) := rfl
  have hletx : IsWord ['l', 'e', 't', 'x'] :=
    ⟨'l', ['e', 't', 'x'], rfl, rfl, List.all_eq_true.1 rfl⟩
  rw [hchars]
  refine .token ⟨hletx, by decide, by decide⟩ (growsBy_of_head? rfl) (.blank rfl ?_)
  refine .token ⟨by decide, List.all_eq_true.1 rfl⟩ (growsBy_of_head? rfl) ?_
  refine .token rfl (growsBy_of_head? rfl) (.blank rfl ?_)
  exact .token rfl (fun c hc => nomatch hc) (.nil _)

theorem tokenize_unique_crowdedTokens :
    (Lexer.ofText "letx 12let\u2003;").tokenize.2 = .ok crowdedTokens ∧
      ¬ TokensFrom 0 "letx 12let\u2003;".toList
        [⟨.letWord, "let", ⟨0, 3⟩⟩, ⟨.ident, "x", ⟨3, 4⟩⟩, ⟨.number, "12", ⟨5, 7⟩⟩,
          ⟨.letWord, "let", ⟨7, 10⟩⟩, ⟨.semicolon, ";", ⟨11, 12⟩⟩] := by
  have h : (Lexer.ofText "letx 12let\u2003;").tokenize.2 = .ok crowdedTokens :=
    tokenize_eq_ok_iff.2 cut_crowdedTokens
  refine ⟨h, ?_⟩
  rw [tokenize_unique h]
  decide

end LetPrint
