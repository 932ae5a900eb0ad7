import LetPrint.Proofs.Tokenization
import Mathlib.Data.List.Chain

/-! Texts that are laid out by hand.

A layout puts spelled texts one after the other, with any blanks before, between and after
them. The lexer finds these texts again, at their places, exactly if blanks keep apart the
neighbours that would otherwise run into one another: a word and what begins with a character
of words, or two numbers (`relexes_iff`). Where two neighbours do run into one another the
lexer does not even return the right kinds and texts. -/
namespace LetPrint

/-- A spelled text with blanks in front of it. -/
structure SpacedText where
  gap : List Char
  kind : TokenKind
  text : List Char
  blank_of_mem_gap : ∀ c ∈ gap, Text.isBlank c
  spelled : kind.Spells text

/-- Spelled texts with blanks around them. -/
structure Layout where
  items : List SpacedText
  tail : List Char
  blank_of_mem_tail : ∀ c ∈ tail, Text.isBlank c

namespace SpacedText

def chars (items : List SpacedText) : List Char :=
  items.flatMap fun s => s.gap ++ s.text

def content (s : SpacedText) : TokenKind × String :=
  (s.kind, String.ofList s.text)

/-- The texts as tokens at the places where they were put, from an offset on. -/
def tokensFrom (offset : Nat) : List SpacedText → List Token
  | [] => []
  | s :: rest =>
    .placed s.kind (offset + s.gap.length) s.text ::
      tokensFrom (offset + s.gap.length + s.text.length) rest

/-- A text that would run into the next one without blanks between them. -/
inductive RunsInto (left right : SpacedText) : Prop
  | word {c : Char} {cs : List Char} :
    left.kind = .letWord ∨ left.kind = .printWord ∨ left.kind = .ident → right.text = c :: cs →
      isWordChar c → RunsInto left right
  | numbers : left.kind = .number → right.kind = .number → RunsInto left right

end SpacedText

namespace Layout

def text (l : Layout) : String :=
  String.ofList (SpacedText.chars l.items ++ l.tail)

def contents (l : Layout) : List (TokenKind × String) :=
  l.items.map SpacedText.content

def tokens (l : Layout) : List Token :=
  SpacedText.tokensFrom 0 l.items

/-- There are blanks between all neighbours that need them. -/
def Separated (l : Layout) : Prop :=
  l.items.IsChain fun left right => left.RunsInto right → right.gap ≠ []

end Layout

/-! ### Where a text would go on -/

theorem isWordStart_of_spells_ident {c : Char} {cs : List Char}
    (h : TokenKind.ident.Spells (c :: cs)) : isWordStart c = true := by
  obtain ⟨⟨first, others, heq, hfirst, _⟩, _⟩ := h
  cases heq
  exact hfirst

/-- Only numbers begin with a digit. -/
theorem isDigit_iff_of_spells {kind : TokenKind} {c : Char} {cs : List Char}
    (h : kind.Spells (c :: cs)) : c.isDigit = true ↔ kind = .number := by
  cases kind with
  | number => simp [h.2 c (List.mem_cons_self ..)]
  | ident =>
    have hstart := isWordStart_of_spells_ident h
    simp only [reduceCtorEq, iff_false]
    intro hdigit
    rw [isWordStart_of_isDigit hdigit] at hstart
    cases hstart
  | operator =>
    rcases h with h | h | h | h <;> cases h <;> decide
  | letWord | printWord | equals | semicolon | openParen | closeParen => cases h; decide

theorem growsBy_of_isBlank {c : Char} (hc : Text.isBlank c) (kind : TokenKind) :
    kind.growsBy c = false := by
  apply growsBy_of_not_isWordChar
  by_contra h
  rw [isBlank_of_isWordChar (by simpa using h)] at hc
  cases hc

/-- Nothing goes on in blanks. -/
theorem growsBy_of_head?_blanks {blanks : List Char} (h : ∀ c ∈ blanks, Text.isBlank c)
    (kind : TokenKind) : ∀ c, blanks.head? = some c → kind.growsBy c = false :=
  fun c hc => growsBy_of_isBlank (h c (List.mem_of_head? hc)) kind

namespace SpacedText

/-- A text runs into the next one exactly if it would go on in its first character. -/
theorem runsInto_iff {left right : SpacedText} {c : Char} {cs : List Char}
    (hright : right.text = c :: cs) : left.RunsInto right ↔ left.kind.growsBy c = true := by
  have hdigit := isDigit_iff_of_spells (hright ▸ right.spelled)
  constructor
  · intro h
    cases h with
    | word hkind htext hword =>
      rw [hright] at htext
      cases htext
      rcases hkind with hkind | hkind | hkind <;> rw [hkind] <;> exact hword
    | numbers hleft hnumber =>
      rw [hleft]
      exact hdigit.2 hnumber
  · intro h
    cases hkind : left.kind <;> rw [hkind] at h
    case letWord => exact .word (.inl hkind) hright h
    case printWord => exact .word (.inr (.inl hkind)) hright h
    case ident => exact .word (.inr (.inr hkind)) hright h
    case number => exact .numbers hkind (hdigit.1 h)
    all_goals cases h

/-- A text ends where the next one begins, or at the blanks in front of that. -/
theorem ends_iff (left right : SpacedText) (rest : List Char) :
    (∀ c, (right.gap ++ (right.text ++ rest)).head? = some c → left.kind.growsBy c = false) ↔
      (left.RunsInto right → right.gap ≠ []) := by
  obtain ⟨c, cs, htext⟩ := List.exists_cons_of_ne_nil (ne_nil_of_spells right.spelled)
  rw [runsInto_iff htext]
  by_cases hgap : right.gap = []
  · simp [hgap, htext]
  · rw [List.head?_append_of_ne_nil _ hgap]
    have hblanks := growsBy_of_head?_blanks right.blank_of_mem_gap left.kind
    exact ⟨fun _ _ => hgap, fun _ => hblanks⟩

end SpacedText

/-! ### Cuts of a layout -/

section Cuts
variable {offset : Nat} {tokens : List Token} {rest : List Char}

theorem cut_blank_iff {c : Char} (hc : Text.isBlank c) :
    Cut offset (c :: rest) tokens ↔ Cut (offset + 1) rest tokens := by
  rw [← scanFrom_eq_iff, ← scanFrom_eq_iff, scanFrom_blank offset rest hc]

theorem cut_gap_iff {gap : List Char} (hgap : ∀ c ∈ gap, Text.isBlank c) :
    Cut offset (gap ++ rest) tokens ↔ Cut (offset + gap.length) rest tokens := by
  induction gap generalizing offset with
  | nil => exact Iff.rfl
  | cons c gap ih =>
    obtain ⟨hc, hlater⟩ := List.forall_mem_cons.1 hgap
    rw [List.cons_append, cut_blank_iff hc, ih hlater, List.length_cons, Nat.add_assoc,
      Nat.add_comm 1]

/-- If a text is found where it was put, then it ends there, and the rest is cut after it. -/
theorem Cut.of_content {kind : TokenKind} {text : List Char} {t : Token}
    (h : Cut offset (text ++ rest) (t :: tokens)) (hspells : kind.Spells text)
    (ht : t.content = (kind, String.ofList text)) :
    t = .placed kind offset text ∧ (∀ c, rest.head? = some c → kind.growsBy c = false) ∧
      Cut (offset + text.length) rest tokens := by
  generalize hcs : text ++ rest = cs at h
  cases h with
  | @blank _ c cs _ hc _ =>
    obtain ⟨first, others, rfl⟩ := List.exists_cons_of_ne_nil (ne_nil_of_spells hspells)
    obtain ⟨rfl, _⟩ := List.cons.inj hcs
    rw [isBlank_of_spells hspells first (List.mem_cons_self ..)] at hc
    cases hc
  | @token _ found front back _ hfound hends hcut =>
    obtain ⟨rfl, htext⟩ := Prod.mk.inj ht
    obtain rfl : front = text := by
      have htexts := congrArg String.toList htext
      simpa [Token.placed] using htexts
    obtain rfl := List.append_cancel_left hcs
    exact ⟨rfl, hends, hcut⟩

end Cuts

namespace SpacedText
variable {offset : Nat} {items : List SpacedText} {tail : List Char}

theorem chars_cons (s : SpacedText) (items : List SpacedText) (tail : List Char) :
    chars (s :: items) ++ tail = s.gap ++ (s.text ++ (chars items ++ tail)) := by
  simp only [chars, List.flatMap_cons, List.append_assoc]

theorem map_content_tokensFrom (offset : Nat) (items : List SpacedText) :
    (tokensFrom offset items).map Token.content = items.map content := by
  induction items generalizing offset with
  | nil => rfl
  | cons s rest ih =>
    rw [tokensFrom, List.map_cons, List.map_cons, ih]
    rfl

/-- Items that are kept apart are cut where they were put. -/
theorem cut_of_isChain (htail : ∀ c ∈ tail, Text.isBlank c)
    (h : items.IsChain fun left right => left.RunsInto right → right.gap ≠ []) (offset : Nat) :
    Cut offset (chars items ++ tail) (tokensFrom offset items) := by
  induction items generalizing offset with
  | nil =>
    have hend : Cut (offset + tail.length) [] [] := .nil _
    rw [← cut_gap_iff htail, List.append_nil] at hend
    exact hend
  | cons s rest ih =>
    obtain ⟨hnext, hrest⟩ := List.isChain_cons.1 h
    have hends : ∀ c, (chars rest ++ tail).head? = some c → s.kind.growsBy c = false := by
      cases rest with
      | nil => exact growsBy_of_head?_blanks htail s.kind
      | cons next others =>
        rw [chars_cons, ends_iff]
        exact hnext next rfl
    rw [chars_cons, cut_gap_iff s.blank_of_mem_gap]
    exact .token s.spelled hends (ih hrest _)

/-- Items whose kinds and texts are found are kept apart, and they are found where they were
put. -/
theorem isChain_of_cut {tokens : List Token} (h : Cut offset (chars items ++ tail) tokens)
    (hcontents : tokens.map Token.content = items.map content) :
    tokens = tokensFrom offset items ∧
      items.IsChain fun left right => left.RunsInto right → right.gap ≠ [] := by
  induction items generalizing offset tokens with
  | nil => exact ⟨List.map_eq_nil_iff.1 hcontents, .nil⟩
  | cons s rest ih =>
    obtain ⟨t, tokens, rfl, ht, hrest⟩ := List.map_eq_cons_iff.1 hcontents
    rw [chars_cons, cut_gap_iff s.blank_of_mem_gap] at h
    obtain ⟨rfl, hends, hcut⟩ := h.of_content s.spelled ht
    obtain ⟨rfl, hchain⟩ := ih hcut hrest
    refine ⟨rfl, List.isChain_cons.2 ⟨fun next hnext => ?_, hchain⟩⟩
    obtain ⟨others, rfl⟩ := List.head?_eq_some_iff.1 hnext
    rw [chars_cons, ends_iff] at hends
    exact hends

end SpacedText

/-- **A layout is read back exactly if it is separated**: then the lexer returns the texts at
their places, and otherwise not even tokens of their kinds with these texts. -/
theorem relexes_iff (l : Layout) :
    ((Lexer.ofText l.text).tokenize.2 = .ok l.tokens ↔ l.Separated) ∧
      ((∃ tokens, (Lexer.ofText l.text).tokenize.2 = .ok tokens ∧
        tokens.map Token.content = l.contents) ↔ l.Separated) := by
  have hread : l.Separated → (Lexer.ofText l.text).tokenize.2 = .ok l.tokens := by
    intro h
    rw [tokenize_eq_ok_iff, Layout.text, String.toList_ofList]
    exact SpacedText.cut_of_isChain l.blank_of_mem_tail h 0
  have hfound : ∀ tokens, (Lexer.ofText l.text).tokenize.2 = .ok tokens →
      tokens.map Token.content = l.contents → l.Separated := by
    intro tokens h hcontents
    rw [tokenize_eq_ok_iff, Layout.text, String.toList_ofList] at h
    exact (SpacedText.isChain_of_cut h hcontents).2
  have hcontents : l.tokens.map Token.content = l.contents :=
    SpacedText.map_content_tokensFrom 0 l.items
  refine ⟨⟨fun h => hfound _ h hcontents, hread⟩, ?_, fun h => ⟨_, hread h, hcontents⟩⟩
  rintro ⟨tokens, h, hsame⟩
  exact hfound tokens h hsame

/-- The word `let`, a name behind a blank that is no ASCII character, and an equals sign right after
the name. -/
def spacedLayout : Layout where
  items := [
    ⟨[], .letWord, "let".toList, List.forall_mem_nil _, rfl⟩,
    ⟨['\u00a0'], .ident, ['x'], List.forall_mem_singleton.2 (by decide),
      ⟨'x', [], rfl, by decide, List.forall_mem_nil _⟩, by decide, by decide⟩,
    ⟨[], .equals, ['='], List.forall_mem_nil _, rfl⟩]
  tail := ['\n']
  blank_of_mem_tail := List.forall_mem_singleton.2 (by decide)

/-- Two numbers with nothing between them. -/
def gluedLayout : Layout where
  items := [
    ⟨[' '], .number, ['1'], List.forall_mem_singleton.2 (by decide), List.cons_ne_nil _ _,
      List.forall_mem_singleton.2 (by decide)⟩,
    ⟨[], .number, ['2'], List.forall_mem_nil _, List.cons_ne_nil _ _,
      List.forall_mem_singleton.2 (by decide)⟩]
  tail := []
  blank_of_mem_tail := List.forall_mem_nil _

theorem relexes_iff_layouts :
    spacedLayout.text = "let\u00a0x=\n" ∧ spacedLayout.Separated ∧
      (Lexer.ofText spacedLayout.text).tokenize.2 = .ok spacedLayout.tokens ∧
      gluedLayout.text = " 12" ∧ ¬ gluedLayout.Separated ∧
      ¬ ∃ tokens, (Lexer.ofText gluedLayout.text).tokenize.2 = .ok tokens ∧
        tokens.map Token.content = gluedLayout.contents := by
  have hspaced : spacedLayout.Separated := by
    refine .cons_cons (fun _ => List.cons_ne_nil _ _) (.cons_cons (fun hruns => ?_) (.singleton _))
    cases hruns with
    | word _ htext hword =>
      cases htext
      exact absurd hword (by decide)
    | numbers hleft => cases hleft
  have hglued : ¬ gluedLayout.Separated := by
    intro h
    obtain ⟨hpair, _⟩ := List.isChain_cons_cons.1 h
    exact hpair (.numbers rfl rfl) rfl
  exact ⟨by decide, hspaced, (relexes_iff spacedLayout).1.2 hspaced, by decide, hglued,
    fun h => hglued ((relexes_iff gluedLayout).2.1 h)⟩

end LetPrint
