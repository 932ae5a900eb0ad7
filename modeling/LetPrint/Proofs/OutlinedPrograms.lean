import LetPrint.Proofs.ListingCodec
import LetPrint.Proofs.Outlines
import LetPrint.Proofs.Positions

/-! Programs and their outlines.

A view of spans keeps something of a program and leaves out the rest: places are kept if they are
shown (`SpanView.kept`). The outline of a program knows nothing of what is left out
(`Expr.outline_copy`), and it tells all the rest (`Program.copy_eq_of_alike`): integers are read
back from their digits, a name stands between its quotation marks as it is, and every label ends
where a character comes that it cannot have. None of the labels breaks a line
(`Program.readable_outlineItems`), as long as names are spelled like names. -/
namespace LetPrint
open Text

/-! ### Integers and names in a text -/

/-- A character that integers are written with. -/
def isNumeralChar (c : Char) : Bool :=
  c.isDigit || c == '-'

theorem isNumeralChar_of_mem_chars {value : Int} {c : Char} (h : c ∈ Decimal.chars value) :
    isNumeralChar c = true := by
  rw [isNumeralChar, Bool.or_eq_true, beq_iff_eq]
  rcases Decimal.looksIntegral_chars value with hdigits | ⟨digits, heq, hdigits⟩
  · exact .inl (hdigits.2 c h)
  · rw [heq] at h
    rcases List.mem_cons.1 h with rfl | h
    · exact .inr rfl
    · exact .inl (hdigits.2 c h)

theorem not_mem_chars {c : Char} (h : isNumeralChar c = false) (value : Int) :
    c ∉ Decimal.chars value := fun hmem => by
  rw [isNumeralChar_of_mem_chars hmem] at h
  cases h

theorem decimal_injective {value value' : Int} (h : Decimal.chars value = Decimal.chars value') :
    value = value' := by
  have hread := Listing.integer?_chars value
  rw [h, Listing.integer?_chars value'] at hread
  exact (Option.some.inj hread).symm

/-- An integer ends where another character comes. -/
theorem decimal_append_inj {value value' : Int} {c : Char} {rest rest' : List Char}
    (hc : isNumeralChar c = false)
    (h : Decimal.chars value ++ c :: rest = Decimal.chars value' ++ c :: rest') :
    value = value' ∧ rest = rest' := by
  obtain ⟨hvalue, _, hrest⟩ := append_cons_inj_of_stop h (fun _ => isNumeralChar_of_mem_chars)
    (fun _ => isNumeralChar_of_mem_chars) hc hc
  exact ⟨decimal_injective hvalue, hrest⟩

/-- A text of letters, digits and underscores. -/
def Worded (text : String) : Prop :=
  ∀ c ∈ text.toList, isWordChar c = true

theorem worded_of_spells {name : String} (h : TokenKind.ident.Spells name.toList) : Worded name :=
  fun c hc => h.1.isWordChar c hc

/-- Such a text is quoted as it is. -/
theorem quoted_of_worded {text : String} (h : Worded text) :
    (quoted text).toList = '\x27' :: (text.toList ++ ['\x27']) := by
  have hne : ∀ {c d : Char}, isWordChar c = true → isWordChar d = false → c ≠ d := by
    rintro c d hc hd rfl
    rw [hc] at hd
    cases hd
  have hprintable : ∀ c, isWordChar c = true → isPrintable c = true := by
    intro c hc
    rw [isWordChar_iff, isWordStart_iff, isDigit_iff] at hc
    simp only [isPrintable]
    rw [if_pos (by omega), Bool.and_eq_true, decide_eq_true_iff, decide_eq_true_iff]
    omega
  have hmark : quotationMark text.toList = '\x27' := by
    have hnone : text.toList.contains '\x27' = false := by
      rw [Bool.eq_false_iff, Ne, List.contains_iff_mem]
      exact fun hmem => hne (h _ hmem) rfl rfl
    rw [quotationMark, hnone]
    rfl
  have hplain : ∀ c ∈ text.toList,
      (if c = '\x27' then ['\\', c] else escaped isPrintable c) = [c] := by
    intro c hc
    have hword := h c hc
    rw [if_neg (hne hword rfl), escaped, if_neg (hne hword rfl), if_neg (hne hword rfl),
      if_neg (hne hword rfl), if_neg (hne hword rfl), if_pos (hprintable c hword)]
  rw [quoted, String.toList_ofList]
  simp only [quotedChars, hmark]
  rw [List.flatMap_congr hplain, List.flatMap_singleton', List.cons_append]

/-! ### Labels -/

theorem TokenKind.name_injective {kind kind' : TokenKind} (h : kind.name = kind'.name) :
    kind = kind' := by
  have hname : ∀ kind : TokenKind, ofName? kind.name = some kind := by
    intro kind
    cases kind <;> decide
  have hsome := hname kind
  rw [h, hname kind'] at hsome
  exact (Option.some.inj hsome).symm

namespace SpanView

/-- Spans are hidden, or shown as offsets. -/
def Offsets (view : SpanView) : Prop :=
  view.shown = true → view.source = none

/-- What a view keeps of a program: the places of its nodes and names, if they are shown. -/
def kept (view : SpanView) : Copying :=
  ⟨id, if view.shown then id else fun _ => 0⟩

variable {view : SpanView}

theorem copy_kept_of_shown (h : view.shown = true) (span : Span) : span.copy view.kept = span := by
  rw [Span.copy, kept, h]
  rfl

theorem copy_kept_of_hidden (h : view.shown = false) (span span' : Span) :
    span.copy view.kept = span'.copy view.kept := by
  rw [Span.copy, Span.copy, kept, h]
  rfl

theorem chars_phrase (hsource : view.source = none) (span : Span) :
    (view.phrase span).chars =
      Decimal.chars span.start ++ '.' :: '.' :: Decimal.chars span.stop := by
  rw [phrase, hsource]
  simp [Phrase.chars, Piece.chars]

theorem phrase_append_inj (hsource : view.source = none) {span span' : Span} {c : Char}
    (hc : isNumeralChar c = false)
    (h : (view.phrase span).chars ++ [c] = (view.phrase span').chars ++ [c]) : span = span' := by
  rw [chars_phrase hsource, chars_phrase hsource, List.append_assoc, List.append_assoc] at h
  obtain ⟨hstart, hrest⟩ := decimal_append_inj (by decide) h
  obtain ⟨hstop, _⟩ := decimal_append_inj hc (List.cons.inj hrest).2
  obtain ⟨start, stop⟩ := span
  cases hstart
  cases hstop
  rfl

theorem chars_nodeLabel (kind : String) (span : Span) :
    (view.nodeLabel kind span).chars = kind.toList ++
      if view.shown then ' ' :: '[' :: ((view.phrase span).chars ++ [']']) else [] := by
  rw [nodeLabel]
  cases view.shown <;> simp

/-- A label tells the kind of a node, and its span if that is shown. -/
theorem nodeLabel_inj (hview : view.Offsets) {kind kind' : String} {span span' : Span}
    (hkind : ' ' ∉ kind.toList) (hkind' : ' ' ∉ kind'.toList)
    (h : (view.nodeLabel kind span).chars = (view.nodeLabel kind' span').chars) :
    kind = kind' ∧ span.copy view.kept = span'.copy view.kept := by
  rw [chars_nodeLabel, chars_nodeLabel] at h
  cases hshown : view.shown with
  | false =>
    rw [hshown] at h
    simp only [Bool.false_eq_true, if_false, List.append_nil] at h
    exact ⟨String.toList_inj.1 h, copy_kept_of_hidden hshown span span'⟩
  | true =>
    rw [hshown] at h
    simp only [if_true] at h
    obtain ⟨heq, hrest⟩ := append_cons_inj_of_not_mem h hkind hkind'
    obtain rfl : span = span' :=
      phrase_append_inj (hview hshown) (c := ']') rfl (List.cons.inj hrest).2
    exact ⟨String.toList_inj.1 heq, rfl⟩

theorem nodeLabel_copy (kind : String) (span : Span) :
    view.nodeLabel kind (span.copy view.kept) = view.nodeLabel kind span := by
  cases hshown : view.shown with
  | false => simp only [nodeLabel, hshown, Bool.false_eq_true, if_false]
  | true => rw [copy_kept_of_shown hshown]

theorem branch_copy (span : Span) : view.branch (span.copy view.kept) = view.branch span := by
  cases hshown : view.shown with
  | false => simp only [branch, hshown, Bool.false_eq_true, if_false]
  | true => rw [copy_kept_of_shown hshown]

end SpanView

namespace Token
variable {view : SpanView}

theorem chars_label {t : Token} (h : Worded t.raw) :
    (t.label view).chars = "Token(".toList ++ (t.kind.name.toList ++ ',' :: ' ' :: '\x27' ::
      (t.raw.toList ++ '\x27' ::
        ((if view.shown then ',' :: ' ' :: (view.phrase t.span).chars else []) ++ [')']))) := by
  rw [label]
  cases view.shown <;> simp [Phrase.chars, Piece.chars, quoted_of_worded h, Phrase.text]

theorem label_copyName (t : Token) : (t.copyName view.kept).label view = t.label view := by
  cases hshown : view.shown with
  | false =>
    simp only [label, copyName, hshown, Bool.false_eq_true, if_false]
    rfl
  | true =>
    rw [copyName, SpanView.copy_kept_of_shown hshown]
    rfl

/-- A label tells the kind and the text of a token, and its place if that is shown. -/
theorem label_inj (hview : view.Offsets) {t t' : Token} (h : Worded t.raw) (h' : Worded t'.raw)
    (hlabel : (t.label view).chars = (t'.label view).chars) :
    t.copyName view.kept = t'.copyName view.kept := by
  have hcomma : ∀ kind : TokenKind, ',' ∉ kind.name.toList := by
    intro kind
    cases kind <;> decide
  rw [chars_label h, chars_label h'] at hlabel
  obtain ⟨hkind, hrest⟩ :=
    append_cons_inj_of_not_mem (List.append_cancel_left hlabel) (hcomma _) (hcomma _)
  obtain ⟨hraw, _, hplace⟩ := append_cons_inj_of_stop
    (List.cons.inj (List.cons.inj hrest).2).2 h h' rfl rfl
  have hkind := TokenKind.name_injective (String.toList_inj.1 hkind)
  have hraw := String.toList_inj.1 hraw
  have hspan : t.span.copy view.kept = t'.span.copy view.kept := by
    cases hshown : view.shown with
    | false => exact SpanView.copy_kept_of_hidden hshown _ _
    | true =>
      rw [hshown, if_pos rfl, if_pos rfl] at hplace
      rw [SpanView.phrase_append_inj (hview hshown) (c := ')') rfl
        (List.cons.inj (List.cons.inj hplace).2).2]
  rw [copyName, copyName, hkind, hraw, hspan]

end Token

/-! ### Outlines of programs -/

section Outlines
variable (view : SpanView) (name : Token) (span : Span) (e : Expr)

theorem outline_literal (value : Int) :
    (Expr.literal value span).node.outline view =
      .branching (view.nodeLabel "Literal" span)
        (.cons (Phrase.text "value") (.leaf [value]) (view.branch span)) := by
  rw [Expr.node, Node.outline]

theorem outline_var :
    (Expr.var name span).node.outline view =
      .branching (view.nodeLabel "Variable" span)
        (.cons (Phrase.text "name") (.leaf (name.label view)) (view.branch span)) := by
  rw [Expr.node, Node.outline]

theorem outline_binary (left : Expr) (op : BinOp) (right : Expr) :
    (Expr.binary left op right span).node.outline view =
      .branching (view.nodeLabel "Binary" span)
        (.cons (Phrase.text "left") (left.node.outline view)
          (.cons (Phrase.text "op") (.leaf (Phrase.text op.worded))
            (.cons (Phrase.text "right") (right.node.outline view) (view.branch span)))) := by
  rw [Expr.node, Node.outline, branch_of_not_span left.isSpan_node,
    branch_of_not_span right.isSpan_node]
  rfl

theorem outline_letStmt :
    (Stmt.letStmt name e span).node.outline view =
      .branching (view.nodeLabel "LetStmt" span)
        (.cons (Phrase.text "name") (.leaf (name.label view))
          (.cons (Phrase.text "value") (e.node.outline view) (view.branch span))) := by
  rw [Stmt.node, Node.outline, branch_of_not_span e.isSpan_node]

theorem outline_printStmt :
    (Stmt.printStmt e span).node.outline view =
      .branching (view.nodeLabel "PrintStmt" span)
        (.cons (Phrase.text "value") (e.node.outline view) (view.branch span)) := by
  rw [Stmt.node, Node.outline, branch_of_not_span e.isSpan_node]

theorem outlineItems_cons (index : Nat) (s : Stmt) (others : Program) :
    Node.outlineItems view index (Program.nodes (s :: others)) =
      .cons ["[", (index : Int), "]"] (s.node.outline view)
        (Node.outlineItems view (index + 1) (Program.nodes others)) := by
  rw [Program.nodes_cons, Node.outlineItems, branch_of_not_span s.isSpan_node]

end Outlines

/-! ### Drawings of copies -/

section Copies
variable {view : SpanView}

/-- What a view does not keep is not drawn. -/
theorem Expr.outline_copy (e : Expr) :
    (e.copy view.kept).node.outline view = e.node.outline view := by
  induction e with
  | literal value span =>
    rw [copy, outline_literal, outline_literal, view.nodeLabel_copy, view.branch_copy]
  | var name span =>
    rw [copy, outline_var, outline_var, view.nodeLabel_copy, view.branch_copy, name.label_copyName]
  | binary left op right span ihl ihr =>
    rw [copy, outline_binary, outline_binary, ihl, ihr, view.nodeLabel_copy, view.branch_copy]

theorem Stmt.outline_copy (s : Stmt) :
    (s.copy view.kept).node.outline view = s.node.outline view := by
  cases s with
  | letStmt name e span =>
    rw [copy, outline_letStmt, outline_letStmt, e.outline_copy, view.nodeLabel_copy,
      view.branch_copy, name.label_copyName]
  | printStmt e span =>
    rw [copy, outline_printStmt, outline_printStmt, e.outline_copy, view.nodeLabel_copy,
      view.branch_copy]

theorem Program.outlineItems_copy (program : Program) (index : Nat) :
    Node.outlineItems view index (program.copy view.kept).nodes =
      Node.outlineItems view index program.nodes := by
  induction program generalizing index with
  | nil => rfl
  | cons s others ih =>
    rw [Program.copy, List.map_cons, outlineItems_cons, outlineItems_cons, s.outline_copy]
    exact congrArg _ (ih (index + 1))

end Copies

/-! ### Programs told by their outlines -/

section Told
variable {view : SpanView}

/-- A node that is labelled with its kind and a span. -/
structure Node.LabelledAt (view : SpanView) (node : Node) (span : Span) : Prop where
  outline : ∃ branches, node.outline view = .branching (view.nodeLabel node.kind span) branches
  kind : ' ' ∉ node.kind.toList

theorem Expr.labelledAt (view : SpanView) (e : Expr) : e.node.LabelledAt view e.span := by
  cases e with
  | literal value span =>
    have hkind : ' ' ∉ "Literal".toList := by decide
    exact ⟨⟨_, outline_literal view span value⟩, hkind⟩
  | var name span =>
    have hkind : ' ' ∉ "Variable".toList := by decide
    exact ⟨⟨_, outline_var view name span⟩, hkind⟩
  | binary left op right span =>
    have hkind : ' ' ∉ "Binary".toList := by decide
    exact ⟨⟨_, outline_binary view span left op right⟩, hkind⟩

theorem Stmt.labelledAt (view : SpanView) (s : Stmt) : s.node.LabelledAt view s.span := by
  cases s with
  | letStmt name e span =>
    have hkind : ' ' ∉ "LetStmt".toList := by decide
    exact ⟨⟨_, outline_letStmt view name span e⟩, hkind⟩
  | printStmt e span =>
    have hkind : ' ' ∉ "PrintStmt".toList := by decide
    exact ⟨⟨_, outline_printStmt view span e⟩, hkind⟩

/-- Nodes that are outlined alike are of one kind, and stand at the same place. -/
theorem Node.kind_eq_of_alike (hview : view.Offsets) {node node' : Node} {span span' : Span}
    (h : node.LabelledAt view span) (h' : node'.LabelledAt view span')
    (halike : (node.outline view).Alike (node'.outline view)) :
    node.kind = node'.kind ∧ span.copy view.kept = span'.copy view.kept := by
  obtain ⟨⟨branches, hbranches⟩, hkind⟩ := h
  obtain ⟨⟨branches', hbranches'⟩, hkind'⟩ := h'
  rw [hbranches, hbranches'] at halike
  exact view.nodeLabel_inj hview hkind hkind' halike.1

theorem worded_injective {op op' : BinOp} (h : op.worded = op'.worded) : op = op' := by
  revert h
  cases op <;> cases op' <;> decide

/-- **An expression is told by its outline**, but for what the view does not keep. -/
theorem Expr.copy_eq_of_alike (hview : view.Offsets) {e e' : Expr} (h : ∀ n ∈ e.names, Worded n)
    (h' : ∀ n ∈ e'.names, Worded n) (halike : (e.node.outline view).Alike (e'.node.outline view)) :
    e.copy view.kept = e'.copy view.kept := by
  induction e generalizing e' with
  | literal value span =>
    obtain ⟨hkind, hspan⟩ :=
      Node.kind_eq_of_alike hview (labelledAt view _) (labelledAt view e') halike
    cases e' with
    | literal value' span' =>
      rw [outline_literal, outline_literal] at halike
      obtain ⟨_, _, hvalue, _⟩ := halike
      have hvalue : Decimal.chars value = Decimal.chars value' := by
        simpa [Outline.Alike, Phrase.chars, Piece.chars] using hvalue
      rw [copy, copy, decimal_injective hvalue]
      exact congrArg _ hspan
    | var => simp [node, Node.kind] at hkind
    | binary => simp [node, Node.kind] at hkind
  | var name span =>
    obtain ⟨hkind, hspan⟩ :=
      Node.kind_eq_of_alike hview (labelledAt view _) (labelledAt view e') halike
    cases e' with
    | var name' span' =>
      rw [outline_var, outline_var] at halike
      obtain ⟨_, _, hname, _⟩ := halike
      rw [copy, copy, Token.label_inj hview (h _ (List.mem_singleton_self _))
        (h' _ (List.mem_singleton_self _)) hname]
      exact congrArg _ hspan
    | literal => simp [node, Node.kind] at hkind
    | binary => simp [node, Node.kind] at hkind
  | binary left op right span ihl ihr =>
    obtain ⟨hkind, hspan⟩ :=
      Node.kind_eq_of_alike hview (labelledAt view _) (labelledAt view e') halike
    cases e' with
    | binary left' op' right' span' =>
      rw [outline_binary, outline_binary] at halike
      obtain ⟨_, _, hleft, _, hop, _, hright, _⟩ := halike
      obtain ⟨hl, hr⟩ := List.forall_mem_append.1 h
      obtain ⟨hl', hr'⟩ := List.forall_mem_append.1 h'
      have hop : op.worded = op'.worded := by
        simpa [Outline.Alike, String.toList_inj] using hop
      rw [copy, copy, ihl hl hl' hleft, worded_injective hop, ihr hr hr' hright]
      exact congrArg _ hspan
    | literal => simp [node, Node.kind] at hkind
    | var => simp [node, Node.kind] at hkind

theorem Stmt.copy_eq_of_alike (hview : view.Offsets) {s s' : Stmt} (h : ∀ n ∈ s.names, Worded n)
    (h' : ∀ n ∈ s'.names, Worded n) (halike : (s.node.outline view).Alike (s'.node.outline view)) :
    s.copy view.kept = s'.copy view.kept := by
  obtain ⟨hkind, hspan⟩ :=
    Node.kind_eq_of_alike hview (labelledAt view s) (labelledAt view s') halike
  have hvalue : ∀ {t : Stmt}, (∀ n ∈ t.names, Worded n) → ∀ n ∈ t.value.names, Worded n :=
    fun ht n hn => ht n (List.mem_append_right _ hn)
  have hv := hvalue h
  have hv' := hvalue h'
  cases s with
  | letStmt name e span =>
    cases s' with
    | letStmt name' e' span' =>
      rw [outline_letStmt, outline_letStmt] at halike
      obtain ⟨_, _, hname, _, hvalue, _⟩ := halike
      have hname : name.copyName view.kept = name'.copyName view.kept :=
        Token.label_inj hview (h _ (List.mem_cons_self ..)) (h' _ (List.mem_cons_self ..)) hname
      have hvalue : e.copy view.kept = e'.copy view.kept :=
        Expr.copy_eq_of_alike hview hv hv' hvalue
      rw [copy, copy, hname, hvalue]
      exact congrArg _ hspan
    | printStmt => simp [node, Node.kind] at hkind
  | printStmt e span =>
    cases s' with
    | printStmt e' span' =>
      rw [outline_printStmt, outline_printStmt] at halike
      obtain ⟨_, _, hvalue, _⟩ := halike
      have hvalue : e.copy view.kept = e'.copy view.kept :=
        Expr.copy_eq_of_alike hview hv hv' hvalue
      rw [copy, copy, hvalue]
      exact congrArg _ hspan
    | letStmt => simp [node, Node.kind] at hkind

/-- **A program is told by its outline**, but for what the view does not keep. -/
theorem Program.copy_eq_of_alike (hview : view.Offsets) {p q : Program}
    (hp : ∀ s ∈ p, ∀ n ∈ s.names, Worded n) (hq : ∀ s ∈ q, ∀ n ∈ s.names, Worded n) (index : Nat)
    (halike : (Node.outlineItems view index p.nodes).Alike (Node.outlineItems view index q.nodes)) :
    p.copy view.kept = q.copy view.kept := by
  induction p generalizing q index with
  | nil =>
    cases q with
    | nil => rfl
    | cons s' others' =>
      rw [outlineItems_cons] at halike
      exact halike.elim
  | cons s others ih =>
    cases q with
    | nil =>
      rw [outlineItems_cons] at halike
      exact halike.elim
    | cons s' others' =>
      rw [outlineItems_cons, outlineItems_cons] at halike
      obtain ⟨_, hfirst, hothers⟩ := halike
      obtain ⟨hs, hps⟩ := List.forall_mem_cons.1 hp
      obtain ⟨hs', hqs⟩ := List.forall_mem_cons.1 hq
      have hrest := ih hps hqs (index + 1) hothers
      rw [copy, copy, List.map_cons, List.map_cons, Stmt.copy_eq_of_alike hview hs hs' hfirst]
      exact congrArg _ hrest

end Told

/-! ### Drawings of programs on lines -/

section Readable
variable {view : SpanView}

theorem feed_not_mem_phrase (hview : view.Offsets) (hshown : view.shown = true) (span : Span) :
    '\n' ∉ (view.phrase span).chars := by
  rw [view.chars_phrase (hview hshown)]
  simp [Decimal.feed_not_mem_chars]

theorem feed_not_mem_nodeLabel (hview : view.Offsets) {kind : String} (hkind : '\n' ∉ kind.toList)
    (span : Span) : '\n' ∉ (view.nodeLabel kind span).chars := by
  rw [view.chars_nodeLabel]
  cases hshown : view.shown with
  | false => simpa using hkind
  | true => simp [hkind, feed_not_mem_phrase hview hshown]

theorem feed_not_mem_label (hview : view.Offsets) {t : Token} (h : Worded t.raw) :
    '\n' ∉ (t.label view).chars := by
  have hkind : '\n' ∉ t.kind.name.toList := by
    cases t.kind <;> decide
  have hraw : '\n' ∉ t.raw.toList := fun hmem => absurd (h _ hmem) (by decide)
  rw [Token.chars_label h]
  cases hshown : view.shown with
  | false => simp [hkind, hraw]
  | true => simp [hkind, hraw, feed_not_mem_phrase hview hshown]

theorem readable_branch (hview : view.Offsets) (span : Span) : (view.branch span).Readable := by
  rw [SpanView.branch]
  cases hshown : view.shown with
  | false => exact trivial
  | true =>
    refine ⟨by decide, ?_, trivial⟩
    simp [Outline.Readable, SpanView.label, feed_not_mem_phrase hview hshown]

theorem Expr.readable (hview : view.Offsets) {e : Expr} (h : ∀ n ∈ e.names, Worded n) :
    (e.node.outline view).Readable := by
  induction e with
  | literal value span =>
    rw [outline_literal]
    refine ⟨feed_not_mem_nodeLabel hview (by decide) span, by decide, ?_,
      readable_branch hview span⟩
    simpa [Outline.Readable, Phrase.chars, Piece.chars] using Decimal.feed_not_mem_chars value
  | var name span =>
    rw [outline_var]
    exact ⟨feed_not_mem_nodeLabel hview (by decide) span, by decide,
      feed_not_mem_label hview (h _ (List.mem_singleton_self _)), readable_branch hview span⟩
  | binary left op right span ihl ihr =>
    obtain ⟨hl, hr⟩ := List.forall_mem_append.1 h
    have hop : '\n' ∉ (Phrase.text op.worded).chars := by
      cases op <;> decide
    rw [outline_binary]
    exact ⟨feed_not_mem_nodeLabel hview (by decide) span, by decide, ihl hl, by decide, hop,
      by decide, ihr hr, readable_branch hview span⟩

theorem Stmt.readable (hview : view.Offsets) {s : Stmt} (h : ∀ n ∈ s.names, Worded n) :
    (s.node.outline view).Readable := by
  cases s with
  | letStmt name e span =>
    have he : (e.node.outline view).Readable :=
      Expr.readable hview fun n hn => h n (List.mem_cons_of_mem _ hn)
    rw [outline_letStmt]
    exact ⟨feed_not_mem_nodeLabel hview (by decide) span, by decide,
      feed_not_mem_label hview (h _ (List.mem_cons_self ..)), by decide, he,
      readable_branch hview span⟩
  | printStmt e span =>
    have he : (e.node.outline view).Readable := Expr.readable hview h
    rw [outline_printStmt]
    exact ⟨feed_not_mem_nodeLabel hview (by decide) span, by decide, he, readable_branch hview span⟩

theorem Program.readable_outlineItems (hview : view.Offsets) {program : Program}
    (h : ∀ s ∈ program, ∀ n ∈ s.names, Worded n) (index : Nat) :
    (Node.outlineItems view index program.nodes).Readable := by
  induction program generalizing index with
  | nil => exact trivial
  | cons s others ih =>
    obtain ⟨hs, hothers⟩ := List.forall_mem_cons.1 h
    rw [outlineItems_cons]
    refine ⟨?_, s.readable hview hs, ih hothers (index + 1)⟩
    have hnone : ∀ c, isNumeralChar c = false → c ≠ '[' → c ≠ ']' →
        c ∉ Phrase.chars ["[", (index : Int), "]"] := by
      intro c hc hopen hclose
      simp [Phrase.chars, Piece.chars, not_mem_chars hc, hopen, hclose]
    exact ⟨hnone _ rfl (by decide) (by decide), hnone _ rfl (by decide) (by decide),
      hnone _ rfl (by decide) (by decide)⟩

end Readable

/-! ### Copies that keep everything -/

section Shown
variable {view : SpanView} (hshown : view.shown = true)
include hshown

theorem Token.copyName_kept_of_shown (t : Token) : t.copyName view.kept = t := by
  rw [copyName, SpanView.copy_kept_of_shown hshown]
  rfl

theorem Expr.copy_kept_of_shown (e : Expr) : e.copy view.kept = e := by
  induction e with
  | literal value span => rw [copy, SpanView.copy_kept_of_shown hshown]
  | var name span =>
    rw [copy, SpanView.copy_kept_of_shown hshown, name.copyName_kept_of_shown hshown]
  | binary left op right span ihl ihr => rw [copy, ihl, ihr, SpanView.copy_kept_of_shown hshown]

theorem Stmt.copy_kept_of_shown (s : Stmt) : s.copy view.kept = s := by
  cases s with
  | letStmt name e span =>
    rw [copy, e.copy_kept_of_shown hshown, SpanView.copy_kept_of_shown hshown,
      name.copyName_kept_of_shown hshown]
  | printStmt e span =>
    rw [copy, e.copy_kept_of_shown hshown, SpanView.copy_kept_of_shown hshown]

theorem Program.copy_kept_of_shown (program : Program) : program.copy view.kept = program :=
  List.map_id'' (Stmt.copy_kept_of_shown hshown) program

end Shown

end LetPrint
