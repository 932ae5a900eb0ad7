import LetPrint.Proofs.Reading

/-! Where the nodes of a program stand.

Some neighbours among the tokens of a text make up a slice of it, and that slice, taken as a
text of its own, has just these tokens (`TokensFrom.slice`): where the slice is cut off, the
last token ends anyway. Every node of a program that was read is made of such neighbours, and its
span reaches from the first to the last of them. So spans are exact, they lie in one another as
the nodes do, and those of the statements make up the text but for its blanks
(`spans_exact`). -/
namespace LetPrint

namespace Span

/-- The span with its offsets counted from another one. -/
def relativeTo (span : Span) (origin : Int) : Span :=
  ⟨span.start - origin, span.stop - origin⟩

/-- A span lies in another one. -/
structure In (inner outer : Span) : Prop where
  start : outer.start ≤ inner.start
  stop : inner.stop ≤ outer.stop

end Span

def Token.relativeTo (t : Token) (origin : Int) : Token :=
  {t with span := t.span.relativeTo origin}

namespace Span

/-- A span reaches from the first to the last of some tokens. -/
structure Reaches (span : Span) (tokens : List Token) : Prop where
  first : tokens.head?.map (·.span.start) = some span.start
  last : tokens.getLast?.map (·.span.stop) = some span.stop

/-- The span of a node in a text, where some tokens make up the node. -/
structure Exact (span : Span) (text : List Char) (tokens : List Token) : Prop where
  within : 0 ≤ span.start ∧ span.start < span.stop ∧ span.stop ≤ text.length
  reaches : span.Reaches tokens
  /-- The text in the span has these tokens, and no others. -/
  relexes : (Lexer.ofText (String.ofList (span.slice text))).tokenize.2 =
    .ok (tokens.map (·.relativeTo span.start))

end Span

/-! ### Slices of a text -/

section Slices
variable {text : List Char} {span inner : Span}

theorem getElem?_slice (h : 0 ≤ span.start) (i : Nat) :
    (span.slice text)[i]? =
      if span.start + i < span.stop then text[span.start.toNat + i]? else none := by
  rw [Span.slice, List.getElem?_drop, List.getElem?_take]
  have hiff : span.start.toNat + i < span.stop.toNat ↔ span.start + i < span.stop := by omega
  simp only [hiff]

theorem length_slice (h : 0 ≤ span.start) (hle : span.start ≤ span.stop)
    (hstop : span.stop ≤ text.length) :
    ((span.slice text).length : Int) = span.stop - span.start := by
  rw [Span.slice, List.length_drop, List.length_take]
  omega

/-- A slice of a slice is a slice. -/
theorem slice_slice (h : 0 ≤ span.start) (hin : inner.In span) (hle : inner.start ≤ inner.stop) :
    (inner.relativeTo span.start).slice (span.slice text) = inner.slice text := by
  obtain ⟨hstart, hstop⟩ := hin
  have hcut : min (span.start.toNat + (inner.stop - span.start).toNat) span.stop.toNat =
      inner.stop.toNat := by omega
  have hfrom : span.start.toNat + (inner.start - span.start).toNat = inner.start.toNat := by omega
  simp only [Span.slice, Span.relativeTo]
  rw [List.take_drop, List.drop_drop, List.take_take, hfrom, hcut]

end Slices

/-! ### Neighbours among the tokens of a text -/

/-- Tokens that follow one another, none of them empty. -/
structure Ascending (tokens : List Token) : Prop where
  nonempty : ∀ t ∈ tokens, t.span.start < t.span.stop
  ordered : tokens.Pairwise fun s t => s.span.stop ≤ t.span.start

namespace Ascending
variable {tokens part before after : List Token} {span : Span}

theorem neighbours (h : Ascending tokens) (hpart : part <:+: tokens) : Ascending part :=
  ⟨fun t ht => h.nonempty t (hpart.subset ht), h.ordered.sublist hpart.sublist⟩

/-- Tokens lie in the span from the first to the last of them. -/
theorem in_of_reaches (h : Ascending tokens) (hspan : span.Reaches tokens) {t : Token}
    (ht : t ∈ tokens) : t.span.In span := by
  constructor
  case start =>
    obtain ⟨first, hfirst, hstart⟩ := Option.map_eq_some_iff.1 hspan.first
    obtain ⟨rest, rfl⟩ := List.head?_eq_some_iff.1 hfirst
    have := h.nonempty first (List.mem_cons_self ..)
    rcases List.mem_cons.1 ht with rfl | ht
    · omega
    · have := (List.pairwise_cons.1 h.ordered).1 t ht
      omega
  case stop =>
    obtain ⟨last, hlast, hstop⟩ := Option.map_eq_some_iff.1 hspan.last
    obtain ⟨front, rfl⟩ := List.getLast?_eq_some_iff.1 hlast
    have hmem := List.mem_singleton_self last
    have := h.nonempty last (List.mem_append_right front hmem)
    rcases List.mem_append.1 ht with ht | ht
    · have := (List.pairwise_append.1 h.ordered).2.2 t ht last hmem
      omega
    · obtain rfl := List.mem_singleton.1 ht
      omega

/-- The other tokens lie before or after the span of neighbours. -/
theorem apart (h : Ascending (before ++ part ++ after)) (hspan : span.Reaches part) :
    (∀ t ∈ before, t.span.stop ≤ span.start) ∧ ∀ t ∈ after, span.stop ≤ t.span.start := by
  obtain ⟨hfront, _, hafter⟩ := List.pairwise_append.1 h.ordered
  obtain ⟨_, _, hbefore⟩ := List.pairwise_append.1 hfront
  constructor
  · intro t ht
    obtain ⟨first, hfirst, hstart⟩ := Option.map_eq_some_iff.1 hspan.first
    have := hbefore t ht first (List.mem_of_head? hfirst)
    omega
  · intro t ht
    obtain ⟨last, hlast, hstop⟩ := Option.map_eq_some_iff.1 hspan.last
    have := hafter last (List.mem_append_right before (List.mem_of_getLast? hlast)) t ht
    omega

end Ascending

namespace TokensFrom
variable {text : List Char} {tokens part : List Token} {span : Span}

theorem ascending (h : TokensFrom 0 text tokens) : Ascending tokens :=
  ⟨fun t ht => (h.within t ht).2.1, h.ordered⟩

theorem within_of_reaches (h : TokensFrom 0 text tokens) (hpart : part <:+: tokens)
    (hspan : span.Reaches part) :
    0 ≤ span.start ∧ span.start < span.stop ∧ span.stop ≤ text.length := by
  obtain ⟨first, hfirst, hstart⟩ := Option.map_eq_some_iff.1 hspan.first
  obtain ⟨last, hlast, hstop⟩ := Option.map_eq_some_iff.1 hspan.last
  have hmem := List.mem_of_head? hfirst
  have := h.within first (hpart.subset hmem)
  have := h.within last (hpart.subset (List.mem_of_getLast? hlast))
  have := (h.ascending.neighbours hpart).in_of_reaches hspan hmem
  have := this.stop
  omega

/-- **Neighbours among the tokens are the tokens of their slice.** -/
theorem slice (h : TokensFrom 0 text tokens) (hpart : part <:+: tokens)
    (hspan : span.Reaches part) :
    TokensFrom 0 (span.slice text) (part.map (·.relativeTo span.start)) := by
  obtain ⟨hstart, hpos, hstop⟩ := h.within_of_reaches hpart hspan
  have hlength := length_slice hstart (Int.le_of_lt hpos) hstop
  have hin : ∀ t ∈ part, t.span.In span := fun t ht =>
    (h.ascending.neighbours hpart).in_of_reaches hspan ht
  have hmem : ∀ t ∈ part, t ∈ tokens := fun t ht => hpart.subset ht
  constructor
  case within =>
    refine List.forall_mem_map.2 fun t ht => ?_
    have := h.within t (hmem t ht)
    have := (hin t ht).start
    have := (hin t ht).stop
    simp only [Token.relativeTo, Span.relativeTo]
    omega
  case ordered =>
    refine List.pairwise_map.2 ((h.ordered.sublist hpart.sublist).imp fun hle => ?_)
    simp only [Token.relativeTo, Span.relativeTo]
    omega
  case raw =>
    refine List.forall_mem_map.2 fun t ht => ?_
    have hle := Int.le_of_lt (h.within t (hmem t ht)).2.1
    rw [Token.relativeTo, slice_slice hstart (hin t ht) hle]
    exact h.raw t (hmem t ht)
  case outside =>
    intro i c _ hc hout
    obtain ⟨before, after, rfl⟩ := hpart
    obtain ⟨hbefore, hafter⟩ := h.ascending.apart hspan
    rw [getElem?_slice hstart] at hc
    split at hc
    · next hi =>
      refine h.outside _ c (Nat.zero_le _) hc fun t ht hcovers => ?_
      obtain ⟨hfrom, hto⟩ := hcovers
      rcases List.mem_append.1 ht with ht | ht
      · rcases List.mem_append.1 ht with ht | ht
        · have := hbefore t ht
          omega
        · refine hout _ (List.mem_map_of_mem ht) ⟨?_, ?_⟩ <;>
            simp only [Token.relativeTo, Span.relativeTo] <;> omega
      · have := hafter t ht
        omega
    · cases hc
  case inside =>
    intro i c hc hcovered
    obtain ⟨s, hs, hfrom, hto⟩ := hcovered
    obtain ⟨t, ht, rfl⟩ := List.mem_map.1 hs
    simp only [Token.relativeTo, Span.relativeTo] at hfrom hto
    rw [getElem?_slice hstart] at hc
    split at hc
    · refine h.inside _ c hc ⟨t, hmem t ht, ?_, ?_⟩ <;> omega
    · cases hc
  case spelled =>
    exact List.forall_mem_map.2 fun t ht => h.spelled t (hmem t ht)
  case maximal =>
    refine List.forall_mem_map.2 fun t ht c hc => ?_
    have := h.within t (hmem t ht)
    have := (hin t ht).start
    rw [getElem?_slice hstart] at hc
    split at hc
    · refine h.maximal t (hmem t ht) c ?_
      rw [← hc]
      simp only [Token.relativeTo, Span.relativeTo]
      congr 1
      omega
    · cases hc

/-- Where a span reaches over neighbours among the tokens, it is exact. -/
theorem exact (h : TokensFrom 0 text tokens) (hpart : part <:+: tokens)
    (hspan : span.Reaches part) :
    span.Exact text part := by
  refine ⟨h.within_of_reaches hpart hspan, hspan, ?_⟩
  rw [tokenize_eq_ok_iff, String.toList_ofList, ← tokensFrom_iff_cut]
  exact h.slice hpart hspan

end TokensFrom

/-! ### The tokens of a node -/

section Reach
variable {ts : List Token}

theorem OperandOf.reaches {e : Expr} (h : OperandOf ts e) : e.span.Reaches ts := by
  cases h <;> exact ⟨rfl, rfl⟩

theorem ExprOf.reaches {e : Expr} (h : ExprOf ts e) : e.span.Reaches ts := by
  cases h with
  | single h => exact h.reaches
  | binary hleft _ _ hright =>
    have hfirst := hleft.reaches.first
    have hlast := hright.reaches.last
    obtain ⟨a, rfl, _⟩ := hleft.exists_token
    obtain ⟨b, rfl, _⟩ := hright.exists_token
    exact ⟨hfirst, hlast⟩

theorem reaches_ends (first last : Token) (between : List Token) :
    (⟨first.span.start, last.span.stop⟩ : Span).Reaches (first :: (between ++ [last])) := by
  refine ⟨rfl, ?_⟩
  rw [← List.cons_append, List.getLast?_concat, Option.map_some]

theorem StmtOf.reaches {s : Stmt} (h : StmtOf ts s) : s.span.Reaches ts := by
  cases h with
  | @letStmt first name eq last ts => exact reaches_ends first last (name :: eq :: ts)
  | @printStmt first left right last ts =>
    have hends := reaches_ends first last (left :: (ts ++ [right]))
    rw [List.cons_append, List.append_assoc] at hends
    exact hends

end Reach

/-! ### Exact trees -/

/-- The text of an operand: the digits of its number, or its name. -/
def Expr.WrittenAs : Expr → List Char → Prop
  | literal value _, cs => TokenKind.number.Spells cs ∧ value = (Nat.ofDigitChars 10 cs 0 : Nat)
  | var name _, cs => cs = name.raw.toList
  | binary .., _ => False

/-- An expression that some tokens of a text make, with exact spans for all its nodes. -/
inductive ExactExpr (text : List Char) : List Token → Expr → Prop
  | operand {t : Token} {e : Expr} : OperandOf [t] e → e.WrittenAs (e.span.slice text) →
    e.span.Exact text [t] → ExactExpr text [t] e
  | binary {ts us : List Token} {t : Token} {left right : Expr} {op : BinOp} {span : Span} :
    ExactExpr text ts left → t.kind = .operator → t.raw = op.symbol → ExactExpr text us right →
      left.span.In span → right.span.In span → span.Exact text (ts ++ t :: us) →
      ExactExpr text (ts ++ t :: us) (.binary left op right span)

/-- A statement that some tokens of a text make, with exact spans for all its nodes. -/
inductive ExactStmt (text : List Char) : List Token → Stmt → Prop
  | letStmt {first name eq last : Token} {ts : List Token} {value : Expr} {span : Span} :
    first.kind = .letWord → name.kind = .ident → eq.kind = .equals → ExactExpr text ts value →
      last.kind = .semicolon → value.span.In span →
      span.Exact text (first :: name :: eq :: (ts ++ [last])) →
      ExactStmt text (first :: name :: eq :: (ts ++ [last])) (.letStmt name value span)
  | printStmt {first left right last : Token} {ts : List Token} {value : Expr} {span : Span} :
    first.kind = .printWord → left.kind = .openParen → ExactExpr text ts value →
      right.kind = .closeParen → last.kind = .semicolon → value.span.In span →
      span.Exact text (first :: left :: (ts ++ [right, last])) →
      ExactStmt text (first :: left :: (ts ++ [right, last])) (.printStmt value span)

section Trees
variable {text : List Char} {tokens ts us : List Token}

/-- The span of a part lies in the span of the whole. -/
theorem Ascending.in_of_part {inner outer : Span} (h : Ascending us) (hpart : ts <:+: us)
    (hinner : inner.Reaches ts) (houter : outer.Reaches us) : inner.In outer := by
  obtain ⟨first, hfirst, hstart⟩ := Option.map_eq_some_iff.1 hinner.first
  obtain ⟨last, hlast, hstop⟩ := Option.map_eq_some_iff.1 hinner.last
  constructor
  case start =>
    rw [← hstart]
    exact (h.in_of_reaches houter (hpart.subset (List.mem_of_head? hfirst))).start
  case stop =>
    rw [← hstop]
    exact (h.in_of_reaches houter (hpart.subset (List.mem_of_getLast? hlast))).stop

variable (htokens : TokensFrom 0 text tokens)
include htokens

theorem OperandOf.exact {e : Expr} (h : OperandOf ts e) (hts : ts <:+: tokens) :
    ExactExpr text ts e := by
  have hspan := htokens.exact hts h.reaches
  cases h with
  | @literal t hkind =>
    have ht : t ∈ tokens := hts.subset (List.mem_singleton_self t)
    have hspelled := htokens.spelled t ht
    rw [hkind] at hspelled
    refine .operand (.literal hkind) ?_ hspan
    rw [Expr.WrittenAs, Expr.span, ← htokens.raw t ht]
    exact ⟨hspelled, rfl⟩
  | @var t hkind =>
    have ht : t ∈ tokens := hts.subset (List.mem_singleton_self t)
    refine .operand (.var hkind) ?_ hspan
    rw [Expr.WrittenAs, Expr.span, htokens.raw t ht]

theorem ExprOf.exact {e : Expr} (h : ExprOf ts e) (hts : ts <:+: tokens) : ExactExpr text ts e := by
  have hreaches := h.reaches
  have hspan := htokens.exact hts hreaches
  have hascending := htokens.ascending.neighbours hts
  cases h with
  | single h => exact h.exact htokens hts
  | @binary ts us t left right op hleft hop hsymbol hright =>
    have hfront : ts <:+: ts ++ t :: us := List.infix_append [] ts (t :: us)
    have hback : us <:+: ts ++ t :: us := ⟨ts ++ [t], [], by simp⟩
    exact .binary (hleft.exact htokens (hfront.trans hts)) hop hsymbol
      (hright.exact htokens (hback.trans hts))
      (hascending.in_of_part hfront hleft.reaches hreaches)
      (hascending.in_of_part hback hright.reaches hreaches) hspan

theorem StmtOf.exact {s : Stmt} (h : StmtOf ts s) (hts : ts <:+: tokens) : ExactStmt text ts s := by
  have hreaches := h.reaches
  have hspan := htokens.exact hts hreaches
  have hascending := htokens.ascending.neighbours hts
  cases h with
  | @letStmt first name eq last ts value hfirst hname heq hvalue hlast =>
    have hpart : ts <:+: first :: name :: eq :: (ts ++ [last]) :=
      List.infix_append [first, name, eq] ts [last]
    exact .letStmt hfirst hname heq (hvalue.exact htokens (hpart.trans hts)) hlast
      (hascending.in_of_part hpart hvalue.reaches hreaches) hspan
  | @printStmt first left right last ts value hfirst hleft hvalue hright hlast =>
    have hpart : ts <:+: first :: left :: (ts ++ [right, last]) :=
      List.infix_append [first, left] ts [right, last]
    exact .printStmt hfirst hleft (hvalue.exact htokens (hpart.trans hts)) hright hlast
      (hascending.in_of_part hpart hvalue.reaches hreaches) hspan

/-- The tokens of a program are those of its statements, one after the other. -/
theorem ProgramOf.exact {program : Program} (h : ProgramOf ts program) (hts : ts <:+: tokens) :
    ∃ blocks, ts = blocks.flatten ∧ List.Forall₂ (ExactStmt text) blocks program := by
  induction h with
  | nil => exact ⟨[], rfl, .nil⟩
  | @cons ts us first others hfirst _ ih =>
    have hfront : ts <:+: ts ++ us := List.infix_append [] ts us
    have hback : us <:+: ts ++ us := (List.suffix_append ts us).isInfix
    obtain ⟨blocks, rfl, hblocks⟩ := ih (hback.trans hts)
    exact ⟨ts :: blocks, rfl, .cons (hfirst.exact htokens (hfront.trans hts)) hblocks⟩

end Trees

section Programs
variable {tokens : List Token} {program : Program}

/-- Every token belongs to a statement, whose span it lies in. -/
theorem ProgramOf.exists_stmt (h : ProgramOf tokens program) (hascending : Ascending tokens)
    {t : Token} (ht : t ∈ tokens) : ∃ s ∈ program, t.span.In s.span := by
  induction h with
  | nil => cases ht
  | @cons ts us first others hfirst _ ih =>
    rcases List.mem_append.1 ht with ht | ht
    · have hts := hascending.neighbours (List.infix_append [] ts us)
      exact ⟨first, List.mem_cons_self .., hts.in_of_reaches hfirst.reaches ht⟩
    · have hus := hascending.neighbours (List.suffix_append ts us).isInfix
      obtain ⟨s, hs, hin⟩ := ih hus ht
      exact ⟨s, List.mem_cons_of_mem first hs, hin⟩

/-- A statement begins where one of the tokens does. -/
theorem ProgramOf.exists_first (h : ProgramOf tokens program) {s : Stmt} (hs : s ∈ program) :
    ∃ t ∈ tokens, t.span.start = s.span.start := by
  induction h with
  | nil => cases hs
  | @cons ts us first others hfirst _ ih =>
    rcases List.mem_cons.1 hs with rfl | hs
    · obtain ⟨t, ht, hstart⟩ := Option.map_eq_some_iff.1 hfirst.reaches.first
      exact ⟨t, List.mem_append_left us (List.mem_of_head? ht), hstart⟩
    · obtain ⟨t, ht, hstart⟩ := ih hs
      exact ⟨t, List.mem_append_right ts ht, hstart⟩

/-- Statements follow one another, like their tokens. -/
theorem ProgramOf.pairwise_span (h : ProgramOf tokens program) (hascending : Ascending tokens) :
    program.Pairwise fun s s' => s.span.stop ≤ s'.span.start := by
  induction h with
  | nil => exact .nil
  | @cons ts us first others hfirst hothers ih =>
    have hus := hascending.neighbours (List.suffix_append ts us).isInfix
    refine List.pairwise_cons.2 ⟨fun s hs => ?_, ih hus⟩
    obtain ⟨t, ht, hstart⟩ := hothers.exists_first hs
    have hall : Ascending ([] ++ ts ++ us) := hascending
    rw [← hstart]
    exact (hall.apart hfirst.reaches).2 t ht

end Programs

/-- **The spans of a program are exact.** The tokens of its text are those of its statements, one
after the other, and every node of a statement is made of just the tokens that its part of the
text has; a child's span lies in its parent's. The spans of the statements do not overlap, stand
in order, and leave out nothing but blanks. -/
theorem spans_exact {text : String} {program : Program} (h : readProgram text = .ok program) :
    ∃ tokens blocks, (Lexer.ofText text).tokenize.2 = .ok tokens ∧ tokens = blocks.flatten ∧
      List.Forall₂ (ExactStmt text.toList) blocks program ∧
      (program.Pairwise fun s s' => s.span.stop ≤ s'.span.start) ∧
      ∀ i c, text.toList[i]? = some c → Text.isBlank c = false →
        ∃ s ∈ program, s.span.Covers i := by
  obtain ⟨tokens, htokenize, p, hparse⟩ := readProgram_eq_ok.1 h
  have htokens : TokensFrom 0 text.toList tokens :=
    tokensFrom_iff_cut.2 (tokenize_eq_ok_iff.1 htokenize)
  have hprogram : ProgramOf tokens program :=
    (Parse.program_ok hparse).2 (spelled_of_tokenize htokenize).fitting
  obtain ⟨blocks, hblocks, hexact⟩ := hprogram.exact htokens (List.infix_refl tokens)
  refine ⟨tokens, blocks, htokenize, hblocks, hexact, hprogram.pairwise_span htokens.ascending, ?_⟩
  intro i c hc hblank
  have hcovered : ∃ t ∈ tokens, t.span.Covers i := by
    by_contra hnone
    simp only [not_exists, not_and] at hnone
    rw [htokens.outside i c (Nat.zero_le i) hc hnone] at hblank
    cases hblank
  obtain ⟨t, ht, hfrom, hto⟩ := hcovered
  obtain ⟨s, hs, hin⟩ := hprogram.exists_stmt htokens.ascending ht
  exact ⟨s, hs, Int.le_trans hin.start hfrom, Int.lt_of_lt_of_le hto hin.stop⟩

/-- Two statements over three lines. -/
def looseText : String :=
  "let x =\n 007;print\n(x-1) ;\n"

/-- The program that it is. -/
def looseProgram : Program := [
  .letStmt ⟨.ident, "x", ⟨4, 5⟩⟩ (.literal 7 ⟨9, 12⟩) ⟨0, 13⟩,
  .printStmt (.binary (.var ⟨.ident, "x", ⟨20, 21⟩⟩ ⟨20, 21⟩) .sub (.literal 1 ⟨22, 23⟩) ⟨20, 23⟩)
    ⟨13, 26⟩]

theorem spans_exact_looseText :
    readProgram looseText = .ok looseProgram ∧
      ∃ tokens blocks, (Lexer.ofText looseText).tokenize.2 = .ok tokens ∧
        tokens = blocks.flatten ∧
        List.Forall₂ (ExactStmt looseText.toList) blocks looseProgram := by
  have h : readProgram looseText = .ok looseProgram := by decide +kernel
  obtain ⟨tokens, blocks, htokens, hblocks, hexact, _⟩ := spans_exact h
  exact ⟨h, tokens, blocks, htokens, hblocks, hexact⟩

end LetPrint
