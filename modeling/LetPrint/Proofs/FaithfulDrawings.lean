import LetPrint.Proofs.Extents
import LetPrint.Proofs.OutlinedPrograms
import LetPrint.Proofs.Wording

/-! Drawings and the programs that they are of.

The integers in a drawing are the literals of the program, the offsets that are shown, and the
places of the statements. Offsets and places do not exceed the length of the text that the program
was read from, so that the drawing of such a program is complete for every text whose length can
itself be shown (`draws_of_readProgram`). Two drawings are the same exactly if the programs are, or,
where spans are hidden, if the programs differ in places at most (`drawings_faithful`). -/
namespace LetPrint
open Text

/-! ### Integers in a drawing -/

/-- A span both of whose offsets can be shown. -/
def Span.Fits (span : Span) : Prop :=
  Decimal.fits span.start = true ∧ Decimal.fits span.stop = true

/-- No literal of the program is too long to show. -/
def Program.LiteralsFit (program : Program) : Prop :=
  ∀ s ∈ program, ∀ value ∈ s.value.literals, Decimal.fits value = true

/-- The spans in an expression, those of its names among them. -/
def Expr.spans : Expr → List Span
  | literal _ span => [span]
  | var name span => [name.span, span]
  | binary left _ right span => span :: (left.spans ++ right.spans)

/-- The spans in a statement, that of the name among them. -/
def Stmt.spans : Stmt → List Span
  | letStmt name value span => span :: name.span :: value.spans
  | printStmt value span => span :: value.spans

section Fits
variable {view : SpanView}

theorem fits_phrase (hview : view.Offsets) (hshown : view.shown = true) {span : Span}
    (h : span.Fits) : (view.phrase span).Fits := by
  rw [SpanView.phrase, hview hshown]
  simp [h.1, h.2]

theorem fits_nodeLabel_of_span (hview : view.Offsets) (kind : String) {span : Span}
    (h : view.shown = true → span.Fits) : (view.nodeLabel kind span).Fits := by
  rw [SpanView.nodeLabel]
  cases hshown : view.shown with
  | false => simp
  | true => simp [fits_phrase hview hshown (h hshown)]

theorem fits_branch_of_span (hview : view.Offsets) {span : Span}
    (h : view.shown = true → span.Fits) : (view.branch span).Fits := by
  rw [SpanView.branch]
  cases hshown : view.shown with
  | false => exact trivial
  | true => simp [Branches.Fits, Outline.Fits, SpanView.label, fits_phrase hview hshown (h hshown)]

theorem Token.fits_label_of_span (hview : view.Offsets) {t : Token}
    (h : view.shown = true → t.span.Fits) : (t.label view).Fits := by
  rw [Token.label]
  cases hshown : view.shown with
  | false => simp
  | true => simp [fits_phrase hview hshown (h hshown)]

theorem Expr.fits_outline_of_spans (hview : view.Offsets) {e : Expr}
    (hliterals : ∀ value ∈ e.literals, Decimal.fits value = true)
    (hspans : ∀ span ∈ e.spans, view.shown = true → span.Fits) : (e.node.outline view).Fits := by
  induction e with
  | literal value span =>
    rw [outline_literal]
    have hspan := hspans span (by simp [spans])
    have hvalue : Decimal.fits value = true := hliterals value (by simp [literals])
    exact ⟨fits_nodeLabel_of_span hview _ hspan, by simp, by simp [Outline.Fits, hvalue],
      fits_branch_of_span hview hspan⟩
  | var name span =>
    rw [outline_var]
    have hspan := hspans span (by simp [spans])
    exact ⟨fits_nodeLabel_of_span hview _ hspan, by simp,
      Token.fits_label_of_span hview (hspans name.span (by simp [spans])),
      fits_branch_of_span hview hspan⟩
  | binary left op right span ihl ihr =>
    rw [outline_binary]
    rw [literals, List.forall_mem_append] at hliterals
    rw [spans, List.forall_mem_cons, List.forall_mem_append] at hspans
    obtain ⟨hspan, hleft, hright⟩ := hspans
    exact ⟨fits_nodeLabel_of_span hview _ hspan, by simp, ihl hliterals.1 hleft, by simp,
      by simp [Outline.Fits], by simp, ihr hliterals.2 hright, fits_branch_of_span hview hspan⟩

theorem Stmt.fits_outline_of_spans (hview : view.Offsets) {s : Stmt}
    (hliterals : ∀ value ∈ s.value.literals, Decimal.fits value = true)
    (hspans : ∀ span ∈ s.spans, view.shown = true → span.Fits) : (s.node.outline view).Fits := by
  cases s with
  | letStmt name e span =>
    rw [outline_letStmt]
    rw [spans, List.forall_mem_cons, List.forall_mem_cons] at hspans
    obtain ⟨hspan, hname, hvalue⟩ := hspans
    exact ⟨fits_nodeLabel_of_span hview _ hspan, by simp, Token.fits_label_of_span hview hname,
      by simp, Expr.fits_outline_of_spans hview hliterals hvalue, fits_branch_of_span hview hspan⟩
  | printStmt e span =>
    rw [outline_printStmt]
    rw [spans, List.forall_mem_cons] at hspans
    obtain ⟨hspan, hvalue⟩ := hspans
    exact ⟨fits_nodeLabel_of_span hview _ hspan, by simp,
      Expr.fits_outline_of_spans hview hliterals hvalue, fits_branch_of_span hview hspan⟩

theorem Program.fits_outlineItems_of_spans (hview : view.Offsets) {program : Program} (index : Nat)
    (hfits : Decimal.fits (index + program.length : Nat) = true)
    (hliterals : program.LiteralsFit)
    (hspans : ∀ s ∈ program, ∀ span ∈ s.spans, view.shown = true → span.Fits) :
    (Node.outlineItems view index program.nodes).Fits := by
  induction program generalizing index with
  | nil => exact trivial
  | cons s others ih =>
    rw [Program.LiteralsFit, List.forall_mem_cons] at hliterals
    rw [List.forall_mem_cons] at hspans
    have hindex : Decimal.fits (index : Int) = true := fits_of_le (Nat.le_add_right ..) hfits
    have hplace : index + 1 + others.length = index + (s :: others).length := by
      rw [List.length_cons, Nat.add_assoc, Nat.add_comm 1]
    rw [← hplace] at hfits
    rw [outlineItems_cons]
    exact ⟨by simp [hindex], s.fits_outline_of_spans hview hliterals.1 hspans.1,
      ih (index + 1) hfits hliterals.2 hspans.2⟩

end Fits

/-! ### Spans in a text -/

/-- A span has characters of a text in it, and none beyond its ends. -/
def Span.Within (text : List Char) (span : Span) : Prop :=
  0 ≤ span.start ∧ span.start < span.stop ∧ span.stop ≤ text.length

section Within
variable {text : List Char} {tokens ts : List Token} (htokens : TokensFrom 0 text tokens)
include htokens

theorem OperandOf.spans_within {e : Expr} (h : OperandOf ts e) (hts : ts <:+: tokens) :
    ∀ span ∈ e.spans, span.Within text := by
  have hspan : e.span.Within text := htokens.within_of_reaches hts h.reaches
  cases h with
  | literal => exact List.forall_mem_singleton.2 hspan
  | var => exact List.forall_mem_cons.2 ⟨hspan, List.forall_mem_singleton.2 hspan⟩

theorem ExprOf.spans_within {e : Expr} (h : ExprOf ts e) (hts : ts <:+: tokens) :
    ∀ span ∈ e.spans, span.Within text := by
  have hspan : e.span.Within text := htokens.within_of_reaches hts h.reaches
  cases h with
  | single h => exact h.spans_within htokens hts
  | @binary ts us t left right op hleft _ _ hright =>
    have hfront : ts <:+: ts ++ t :: us := List.infix_append [] ts (t :: us)
    have hback : us <:+: ts ++ t :: us := ⟨ts ++ [t], [], by simp⟩
    have hleft := hleft.spans_within htokens (hfront.trans hts)
    have hright := hright.spans_within htokens (hback.trans hts)
    exact List.forall_mem_cons.2 ⟨hspan, List.forall_mem_append.2 ⟨hleft, hright⟩⟩

theorem StmtOf.spans_within {s : Stmt} (h : StmtOf ts s) (hts : ts <:+: tokens) :
    ∀ span ∈ s.spans, span.Within text := by
  have hspan : s.span.Within text := htokens.within_of_reaches hts h.reaches
  cases h with
  | @letStmt first name eq last ts value _ _ _ hvalue _ =>
    have hpart : ts <:+: first :: name :: eq :: (ts ++ [last]) :=
      List.infix_append [first, name, eq] ts [last]
    have hname : name.span.Within text := htokens.within name (hts.subset (by simp))
    exact List.forall_mem_cons.2 ⟨hspan, List.forall_mem_cons.2
      ⟨hname, hvalue.spans_within htokens (hpart.trans hts)⟩⟩
  | @printStmt first left right last ts value _ _ hvalue _ _ =>
    have hpart : ts <:+: first :: left :: (ts ++ [right, last]) :=
      List.infix_append [first, left] ts [right, last]
    exact List.forall_mem_cons.2 ⟨hspan, hvalue.spans_within htokens (hpart.trans hts)⟩

theorem ProgramOf.spans_within {program : Program} (h : ProgramOf ts program)
    (hts : ts <:+: tokens) : ∀ s ∈ program, ∀ span ∈ s.spans, span.Within text := by
  induction h with
  | nil => exact fun s hs => absurd hs List.not_mem_nil
  | @cons ts us first others hfirst _ ih =>
    have hfront : ts <:+: ts ++ us := List.infix_append [] ts us
    have hback : us <:+: ts ++ us := (List.suffix_append ts us).isInfix
    exact List.forall_mem_cons.2
      ⟨hfirst.spans_within htokens (hfront.trans hts), ih (hback.trans hts)⟩

end Within

theorem Stmt.span_mem_spans (s : Stmt) : s.span ∈ s.spans := by
  cases s <;> exact List.mem_cons_self ..

/-- Statements that follow one another in a text are no more than its characters. -/
theorem length_le_of_pairwise {program : Program} {first last : Int}
    (hpairwise : program.Pairwise fun s s' => s.span.stop ≤ s'.span.start)
    (hwithin : ∀ s ∈ program,
      first ≤ s.span.start ∧ s.span.start < s.span.stop ∧ s.span.stop ≤ last)
    (hle : first ≤ last) : first + program.length ≤ last := by
  induction program generalizing first with
  | nil => simpa using hle
  | cons s others ih =>
    obtain ⟨hnext, hothers⟩ := List.pairwise_cons.1 hpairwise
    obtain ⟨hs, hmore⟩ := List.forall_mem_cons.1 hwithin
    have hrest : s.span.stop + others.length ≤ last :=
      ih hothers (fun s' hs' => ⟨hnext s' hs', (hmore s' hs').2⟩) hs.2.2
    rw [List.length_cons]
    omega

/-- What is known of the places of a program that was read. -/
theorem spans_within_of_readProgram {text : String} {program : Program}
    (h : readProgram text = .ok program) :
    (∀ s ∈ program, ∀ span ∈ s.spans, span.Within text.toList) ∧
      program.length ≤ text.toList.length := by
  obtain ⟨tokens, htokenize, p, hparse⟩ := readProgram_eq_ok.1 h
  have htokens : TokensFrom 0 text.toList tokens :=
    tokensFrom_iff_cut.2 (tokenize_eq_ok_iff.1 htokenize)
  have hprogram : ProgramOf tokens program :=
    (Parse.program_ok hparse).2 (spelled_of_tokenize htokenize).fitting
  have hwithin := hprogram.spans_within htokens (List.infix_refl tokens)
  have hlength := length_le_of_pairwise (hprogram.pairwise_span htokens.ascending)
    (fun s hs => hwithin s hs _ s.span_mem_spans) (Int.natCast_nonneg _)
  refine ⟨hwithin, ?_⟩
  omega

/-! ### Drawings -/

/-- The drawing of a program with every integer in full. -/
def SpanView.drawing (view : SpanView) (program : Program) : String :=
  (Phrase.joined "\n" (Node.outlineRows view (.list program.nodes))).write

section Drawings
variable {view : SpanView} {p q program : Program} {text : String}

theorem outline_nodes (view : SpanView) (program : Program) :
    (Node.list program.nodes).outline view =
      .branching ["list[", (program.length : Int), "]"]
        (Node.outlineItems view 0 program.nodes) := by
  have hlength : program.nodes.length = program.length := List.length_map _
  rw [Node.outline, hlength]

theorem Program.readable_outline (hview : view.Offsets)
    (h : ∀ s ∈ program, ∀ n ∈ s.names, Worded n) :
    (Outline.branching ["list[", (program.length : Int), "]"]
      (Node.outlineItems view 0 program.nodes)).Readable := by
  refine ⟨?_, Program.readable_outlineItems hview h 0⟩
  simp [Phrase.chars, Piece.chars, Decimal.feed_not_mem_chars]

/-- What a view does not keep of a program is not drawn. -/
theorem drawing_copy (view : SpanView) (program : Program) :
    view.drawing (program.copy view.kept) = view.drawing program := by
  have hlength : (program.copy view.kept).length = program.length := List.length_map _
  simp only [SpanView.drawing, Node.outlineRows, outline_nodes, Program.outlineItems_copy, hlength]

theorem drawing_eq_iff (hview : view.Offsets) (hp : ∀ s ∈ p, ∀ n ∈ s.names, Worded n)
    (hq : ∀ s ∈ q, ∀ n ∈ s.names, Worded n) :
    view.drawing p = view.drawing q ↔ p.copy view.kept = q.copy view.kept := by
  constructor
  · intro h
    have hchars := congrArg String.toList h
    simp only [SpanView.drawing, Phrase.write, String.toList_ofList, Node.outlineRows,
      outline_nodes] at hchars
    have halike := alike_of_drawings (Program.readable_outline hview hp)
      (Program.readable_outline hview hq) hchars
    exact Program.copy_eq_of_alike hview hp hq 0 halike.2
  · intro h
    rw [← drawing_copy view p, h, drawing_copy]

/-- Offsets in a text are no longer to write than its length. -/
theorem Span.Within.fits {span : Span} {cs : List Char} (h : span.Within cs)
    (hfits : Decimal.fits cs.length = true) : span.Fits := by
  have hoffset : ∀ n : Int, 0 ≤ n → n ≤ cs.length → Decimal.fits n = true := by
    intro n hpos hle
    obtain ⟨k, rfl⟩ := Int.eq_ofNat_of_zero_le hpos
    exact fits_of_le (by omega) hfits
  obtain ⟨hstart, hlt, hstop⟩ := h
  exact ⟨hoffset _ hstart (by omega), hoffset _ (by omega) hstop⟩

/-- A program is drawn in full, unless its text is so long that its length cannot be shown. -/
def SpanView.Draws (view : SpanView) (text : String) (program : Program) : Prop :=
  Node.drawing? view (.list program.nodes) = some (view.drawing program) ∨
    Node.drawing? view (.list program.nodes) = none ∧
      Decimal.fits text.toList.length = false

theorem draws_of_readProgram (hview : view.Offsets) (h : readProgram text = .ok program)
    (hliterals : program.LiteralsFit) :
    view.Draws text program := by
  obtain ⟨hwithin, hlength⟩ := spans_within_of_readProgram h
  by_cases hdrawn : (Phrase.joined "\n" (Node.outlineRows view (.list program.nodes))).Fits
  · exact .inl (Phrase.writeShort?_of_fits hdrawn)
  · refine .inr ⟨Phrase.writeShort?_of_not_fits hdrawn, ?_⟩
    rw [Bool.eq_false_iff]
    intro hfits
    have hcount : Decimal.fits (0 + program.length : Nat) = true := by
      rw [Nat.zero_add]
      exact fits_of_le hlength hfits
    have hitems := Program.fits_outlineItems_of_spans hview 0 hcount hliterals
      fun s hs span hspan _ => (hwithin s hs span hspan).fits hfits
    rw [Nat.zero_add] at hcount
    refine hdrawn ?_
    rw [Phrase.fits_joined, Node.outlineRows, Outline.fits_rows, outline_nodes]
    exact ⟨by simp [hcount], hitems⟩

end Drawings

/-- **Drawings are faithful.** Two programs that were read are drawn in the same way without spans
exactly if they differ in places at most, and with spans exactly if they are the same. -/
theorem drawings_faithful {text text' : String} {p q : Program} (hp : readProgram text = .ok p)
    (hq : readProgram text' = .ok q)
    (hliterals : p.LiteralsFit) (hliterals' : q.LiteralsFit) :
    (∀ source : Option Source,
      SpanView.Draws ⟨false, source⟩ text p ∧ SpanView.Draws ⟨false, source⟩ text' q ∧
        (SpanView.drawing ⟨false, source⟩ p = SpanView.drawing ⟨false, source⟩ q ↔
          p.unplaced = q.unplaced)) ∧
      SpanView.Draws ⟨true, none⟩ text p ∧ SpanView.Draws ⟨true, none⟩ text' q ∧
        (SpanView.drawing ⟨true, none⟩ p = SpanView.drawing ⟨true, none⟩ q ↔ p = q) := by
  have hworded : ∀ s ∈ p, ∀ n ∈ s.names, Worded n := fun s hs n hn =>
    worded_of_spells ((wellFormed_of_readProgram hp).spelled s hs n hn)
  have hworded' : ∀ s ∈ q, ∀ n ∈ s.names, Worded n := fun s hs n hn =>
    worded_of_spells ((wellFormed_of_readProgram hq).spelled s hs n hn)
  constructor
  · intro source
    have hview : SpanView.Offsets ⟨false, source⟩ := nofun
    refine ⟨draws_of_readProgram hview hp hliterals, draws_of_readProgram hview hq hliterals', ?_⟩
    have hiff := drawing_eq_iff hview hworded hworded'
    have hkept : SpanView.kept ⟨false, source⟩ = .unplacing := rfl
    rwa [hkept, Program.copy_unplacing] at hiff
  · have hview : SpanView.Offsets ⟨true, none⟩ := fun _ => rfl
    refine ⟨draws_of_readProgram hview hp hliterals, draws_of_readProgram hview hq hliterals', ?_⟩
    have hiff := drawing_eq_iff hview hworded hworded'
    rwa [Program.copy_kept_of_shown rfl, Program.copy_kept_of_shown rfl] at hiff

/-- The same two statements as in the other text, each at another place. -/
def compactText : String :=
  "let x = 7; print(x-1);"

def compactProgram : Program := [
  .letStmt ⟨.ident, "x", ⟨4, 5⟩⟩ (.literal 7 ⟨8, 9⟩) ⟨0, 10⟩,
  .printStmt (.binary (.var ⟨.ident, "x", ⟨17, 18⟩⟩ ⟨17, 18⟩) .sub (.literal 1 ⟨19, 20⟩) ⟨17, 20⟩)
    ⟨11, 22⟩]

theorem drawings_faithful_compactText :
    readProgram looseText = .ok looseProgram ∧ readProgram compactText = .ok compactProgram ∧
      looseProgram.LiteralsFit ∧ compactProgram.LiteralsFit ∧
      SpanView.drawing ⟨false, none⟩ looseProgram =
        SpanView.drawing ⟨false, none⟩ compactProgram ∧
      SpanView.drawing ⟨true, none⟩ looseProgram ≠
        SpanView.drawing ⟨true, none⟩ compactProgram := by
  have hloose : readProgram looseText = .ok looseProgram := by decide +kernel
  have hcompact : readProgram compactText = .ok compactProgram := by decide +kernel
  have hseven : Decimal.fits 7 = true := fits_digit (n := 7) (by decide)
  have hone : Decimal.fits 1 = true := fits_digit (n := 1) (by decide)
  have hliterals : looseProgram.LiteralsFit := by
    simp [Program.LiteralsFit, looseProgram, Stmt.value, Expr.literals, hseven, hone]
  have hliterals' : compactProgram.LiteralsFit := by
    simp [Program.LiteralsFit, compactProgram, Stmt.value, Expr.literals, hseven, hone]
  obtain ⟨hhidden, _, _, hshown⟩ := drawings_faithful hloose hcompact hliterals hliterals'
  have hplaces : looseProgram.unplaced = compactProgram.unplaced := by decide
  exact ⟨hloose, hcompact, hliterals, hliterals', (hhidden none).2.2.2 hplaces,
    fun hsame => absurd (hshown.1 hsame) (by decide)⟩

end LetPrint
