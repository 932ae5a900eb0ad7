import LetPrint.Proofs.Operands

/-! The parser on expressions, statements and programs.

Each operation of the parser follows progress through the parts that are due when it
begins, and returns the tree of the tokens it takes. For whole programs that is
`program_ok` and `program_error`: the parser returns what the tokens are, or fails where
progress stops. -/
namespace LetPrint.Parse

/-! ### Expressions -/

theorem symbol_of_fits {t : Token} (hfits : t.Fits) (hkind : t.kind = .operator) :
    ∃ op, BinOp.ofSymbol? t.raw = some op := by
  rcases hfits with hident | hspells
  · rw [hkind] at hident
    cases hident
  · rw [hkind] at hspells
    have hraw : ∀ text : String, t.raw.toList = text.toList → t.raw = text := fun _ h =>
      String.toList_inj.1 h
    rcases hspells with h | h | h | h
    · exact ⟨.add, by rw [hraw "+" h]; rfl⟩
    · exact ⟨.sub, by rw [hraw "-" h]; rfl⟩
    · exact ⟨.mul, by rw [hraw "*" h]; rfl⟩
    · exact ⟨.div, by rw [hraw "/" h]; rfl⟩

theorem symbol_of_ofSymbol? {text : String} {op : BinOp} (h : BinOp.ofSymbol? text = some op) :
    text = op.symbol := by
  have := List.find?_some h
  exact (of_decide_eq_true this).symm

/-- An operator is the next token where an operation is due. -/
def Operating (due : List Part) (p : Parser) (q : Progress) : Prop :=
  q.due = .more :: due ∧ p.nextIs .operator = true

theorem offers_operator {due : List Part} {p : Parser} {q : Progress} (h : Operating due p q) :
    Offers [.operator] (.operand :: due) p q := by
  obtain ⟨hdue, hop⟩ := h
  refine ⟨fun _ => by simp [hdue], fun t rest hrest => ?_⟩
  rw [nextIs_of_rest hrest, decide_eq_true_iff] at hop
  rw [hdue, nextDue, if_pos hop, if_pos (List.mem_singleton.2 hop)]

/-- The tokens of an operation, of which the left operand is known. -/
def OperationOf (left : Expr) (tokens : List Token) (e : Expr) : Prop :=
  ∃ t us op right, tokens = t :: us ∧ t.kind = .operator ∧ t.raw = BinOp.symbol op ∧
    OperandOf us right ∧ e = .binary left op right ⟨left.span.start, right.span.stop⟩

theorem operation_eq {left right : Expr} {p p' p'' : Parser} {t : Token}
    (hop : consume [.operator] p = .ok t p') (hright : operand p' = .ok right p'') :
    operation left p =
      match BinOp.ofSymbol? t.raw with
      | some op => .ok (.binary left op right ⟨left.span.start, right.span.stop⟩) p''
      | none => .error (.badOperator t.raw) p'' := by
  simp only [operation, bind, EStateM.bind, hop, hright]
  cases BinOp.ofSymbol? t.raw <;> rfl

/-- The operator is looked at only after the right operand is read, so this is no plain
sequence: that the operator fits its kind matters when it is taken already. -/
theorem operation_follows (left : Expr) (due : List Part) :
    Follows (Operating due) (operation left) (Due due) fun used e =>
      Fitting used → OperationOf left used e := by
  constructor
  case ok =>
    intro p q e last ht hoperating h
    obtain ⟨t, p', hconsume, hrest⟩ := bind_eq_ok.1 h
    obtain ⟨right, p'', hright, _⟩ := bind_eq_ok.1 hrest
    obtain ⟨_, _, hkind, _⟩ := consume_eq_ok.1 hconsume
    have hop : t.kind = .operator := List.mem_singleton.1 hkind
    have hadv := consume_advances (offers_operator hoperating) ht (by simp [hop]) hconsume
    obtain ⟨us, q', hadv', hdue, hoperand⟩ := (operand_follows due).ok hadv.tracks rfl hright
    rw [operation_eq hconsume hright] at h
    split at h
    · next op hsymbol =>
      cases h
      refine ⟨[t] ++ us, q', hadv.trans hadv', hdue, fun hfits => ?_⟩
      rw [fitting_append] at hfits
      exact ⟨t, us, op, right, rfl, hop, symbol_of_ofSymbol? hsymbol, hoperand hfits.2, rfl⟩
    · cases h
  case error =>
    intro p q fault last ht hoperating h hfits
    rcases bind_eq_error.1 h with herror | ⟨t, p', hconsume, hrest⟩
    · exact consume_halts (offers_operator hoperating) herror
    · obtain ⟨_, _, hkind, _⟩ := consume_eq_ok.1 hconsume
      have hop : t.kind = .operator := List.mem_singleton.1 hkind
      have hadv := consume_advances (offers_operator hoperating) ht (by simp [hop]) hconsume
      obtain ⟨hfront, hback⟩ := hadv.fitting hfits
      rcases bind_eq_error.1 hrest with herror | ⟨right, p'', hright, _⟩
      · exact .after hadv ((operand_follows due).error hadv.tracks rfl herror hback)
      · obtain ⟨op, hsymbol⟩ := symbol_of_fits (hfront t (List.mem_singleton_self t)) hop
        rw [operation_eq hconsume hright, hsymbol] at h
        cases h

theorem operation?_follows (left : Expr) (due : List Part) :
    Follows (Due (.more :: due)) (operation? left) (Ready due) fun used e =>
      Fitting used → OperationOf left used e ∨ used = [] ∧ e = left := by
  have hstep : ∀ p, operation? left p =
      if p.nextIs .operator then operation left p else .ok left p := by
    intro p
    show (if p.nextIs .operator then operation left else pure left : Parse Expr) p = _
    split <;> rfl
  constructor
  case ok =>
    intro p q e p' ht hdue h
    rw [hstep] at h
    cases hop : p.nextIs .operator with
    | true =>
      rw [hop, if_pos rfl] at h
      obtain ⟨used, q', hadv, hpost, he⟩ := (operation_follows left due).ok ht ⟨hdue, hop⟩ h
      exact ⟨used, q', hadv, .inl hpost, fun hfits => .inl (he hfits)⟩
    | false =>
      rw [hop, if_neg Bool.false_ne_true] at h
      cases h
      exact ⟨[], q, .refl ht, .inr ⟨hdue, hop⟩, fun _ => .inr ⟨rfl, rfl⟩⟩
  case error =>
    intro p q fault p' ht hdue h hfits
    rw [hstep] at h
    cases hop : p.nextIs .operator with
    | true =>
      rw [hop, if_pos rfl] at h
      exact (operation_follows left due).error ht ⟨hdue, hop⟩ h hfits
    | false =>
      rw [hop, if_neg Bool.false_ne_true] at h
      cases h

theorem expr_follows (due : List Part) :
    Follows (Due (.operand :: .more :: due)) expr (Ready due) fun used e =>
      Fitting used → ExprOf used e := by
  refine ((operand_follows _).bind fun left => operation?_follows left due).imp ?_
  intro used e htaken hfits
  obtain ⟨left, front, back, rfl, hleft, hmore⟩ := htaken
  rw [fitting_append] at hfits
  rcases hmore hfits.2 with ⟨t, us, op, right, rfl, hop, hsymbol, hright, rfl⟩ | ⟨rfl, rfl⟩
  · exact .binary (hleft hfits.1) hop hsymbol hright
  · rw [List.append_nil]
    exact .single (hleft hfits.1)

/-! ### Statements -/

/-- A statement begins, and its keyword is the next token. -/
def Starting (keyword : TokenKind) (p : Parser) (q : Progress) : Prop :=
  q.due = [] ∧ p.nextIs keyword = true

theorem Starting.offers {keyword : TokenKind} {due : List Part} {p : Parser} {q : Progress}
    (h : Starting keyword p q) (hnext : nextDue [] keyword = some due) :
    Offers [keyword] due p q := by
  obtain ⟨hdue, hkeyword⟩ := h
  constructor
  case nonempty =>
    intro hrest
    simp [Parser.nextIs, Parser.peek, hrest] at hkeyword
  case next =>
    intro t rest hrest
    rw [nextIs_of_rest hrest, decide_eq_true_iff] at hkeyword
    rw [if_pos (List.mem_singleton.2 hkeyword), hdue, hkeyword, hnext]

theorem consume_keyword_follows {keyword : TokenKind} {due : List Part}
    (hnext : nextDue [] keyword = some due) (hident : keyword ≠ .ident) :
    Follows (Starting keyword) (consume [keyword]) (Due due) fun used t =>
      used = [t] ∧ t.kind = keyword := by
  have hnot : TokenKind.ident ∉ [keyword] := fun h => hident (List.mem_singleton.1 h).symm
  refine ((consume_follows hnot).weaken fun p q h => h.offers hnext).imp ?_
  intro used t htoken
  obtain ⟨hused, hkind⟩ := htoken
  exact ⟨hused, List.mem_singleton.1 hkind⟩

theorem ready_of_due {due : List Part} (p : Parser) (q : Progress) (h : Due due p q) :
    Ready due p q :=
  .inl h

theorem letStmt_follows :
    Follows (Starting .letWord) letStmt (Due []) fun used s =>
      used ≠ [] ∧ (Fitting used → StmtOf used s) := by
  refine ((consume_keyword_follows rfl (by decide)).bind fun first =>
    (newName_follows _).bind fun name =>
      ((consume_token_follows (by decide)).weaken ready_of_due).bind fun eq =>
        (expr_follows _).bind fun value =>
          (consume_token_follows (by decide)).bind fun last => .pure _).imp ?_
  intro used s htaken
  obtain ⟨first, _, _, rfl, ⟨rfl, hfirst⟩, name, _, _, rfl, ⟨rfl, hname⟩, eq, _, _, rfl,
    ⟨rfl, heq⟩, value, ts, _, rfl, hvalue, last, _, _, rfl, ⟨rfl, hlast⟩, rfl, rfl⟩ := htaken
  refine ⟨List.cons_ne_nil _ _, fun hfits => ?_⟩
  simp only [fitting_append] at hfits
  exact .letStmt hfirst hname heq (hvalue hfits.2.2.2.1) hlast

theorem printStmt_follows :
    Follows (Starting .printWord) printStmt (Due []) fun used s =>
      used ≠ [] ∧ (Fitting used → StmtOf used s) := by
  refine ((consume_keyword_follows rfl (by decide)).bind fun first =>
    ((consume_token_follows (by decide)).weaken ready_of_due).bind fun left =>
      (expr_follows _).bind fun value =>
        (consume_token_follows (by decide)).bind fun right =>
          ((consume_token_follows (by decide)).weaken ready_of_due).bind fun last =>
            .pure _).imp ?_
  intro used s htaken
  obtain ⟨first, _, _, rfl, ⟨rfl, hfirst⟩, left, _, _, rfl, ⟨rfl, hleft⟩, value, ts, _, rfl,
    hvalue, right, _, _, rfl, ⟨rfl, hright⟩, last, _, _, rfl, ⟨rfl, hlast⟩, rfl, rfl⟩ := htaken
  refine ⟨List.cons_ne_nil _ _, fun hfits => ?_⟩
  simp only [fitting_append] at hfits
  exact .printStmt hfirst hleft (hvalue hfits.2.2.1) hright hlast

/-- A statement begins, with no more than so many tokens left. -/
def Between (limit : Nat) (p : Parser) (q : Progress) : Prop :=
  q.due = [] ∧ p.rest.length ≤ limit

/-- The parser of a statement by its keyword. -/
def stmtAt (t : Token) : Parse Stmt :=
  match t.kind with
  | .letWord => letStmt
  | .printWord => printStmt
  | _ => throw (.unexpected [.letWord, .printWord] (some t))

theorem stmt_of_rest {p : Parser} {t : Token} {rest : List Token} (h : p.rest = t :: rest) :
    stmt p = stmtAt t (p.noting .statement t) := by
  obtain ⟨tokens, index, left, symbols, events⟩ := p
  have hleft : left = t :: rest := h
  subst hleft
  rfl

theorem stmtAt_follows {t : Token} {rest : List Token} :
    Follows (fun p q => q.due = [] ∧ p.rest = t :: rest) (stmtAt t) (Due []) fun used s =>
      used ≠ [] ∧ (Fitting used → StmtOf used s) := by
  have hnext : ∀ p : Parser, p.rest = t :: rest → p.nextIs t.kind = true := fun p hrest => by
    rw [nextIs_of_rest hrest, decide_eq_true_iff]
  cases hkind : t.kind with
  | letWord =>
    rw [stmtAt, hkind]
    exact letStmt_follows.weaken fun p q h => ⟨h.1, hkind ▸ hnext p h.2⟩
  | printWord =>
    rw [stmtAt, hkind]
    exact printStmt_follows.weaken fun p q h => ⟨h.1, hkind ▸ hnext p h.2⟩
  | ident | number | equals | operator | semicolon | openParen | closeParen =>
    rw [stmtAt, hkind]
    constructor
    case ok =>
      intro p q s p' _ _ h
      cases h
    case error =>
      intro p q fault p' _ hpre h _
      obtain ⟨hdue, hrest⟩ := hpre
      cases h
      refine ⟨[], t :: rest, q, 0, hrest, rfl, by simp, .misfit _ ?_⟩
      rw [hdue, hkind]
      rfl

/-- A statement takes a token at least. -/
theorem stmt_follows (limit : Nat) :
    Follows (fun p q => Between (limit + 1) p q ∧ p.rest ≠ []) stmt (Between limit) fun used s =>
      Fitting used → StmtOf used s := by
  constructor
  case ok =>
    intro p q s p' ht hpre h
    obtain ⟨⟨hdue, hlimit⟩, hne⟩ := hpre
    obtain ⟨t, rest, hrest⟩ := List.exists_cons_of_ne_nil hne
    rw [stmt_of_rest hrest] at h
    have htracks : Tracks (p.noting .statement t) q := ht
    obtain ⟨used, q', hadv, hpost, hused, hs⟩ := stmtAt_follows.ok htracks ⟨hdue, hrest⟩ h
    have hsplit : p.rest = used ++ p'.rest := hadv.rest
    have hpos := List.length_pos_iff.2 hused
    rw [hsplit, List.length_append] at hlimit
    exact ⟨used, q', ⟨hsplit, hadv.index, hadv.run, hadv.tracks⟩, ⟨hpost, by omega⟩, hs⟩
  case error =>
    intro p q fault p' ht hpre h hfits
    obtain ⟨⟨hdue, _⟩, hne⟩ := hpre
    obtain ⟨t, rest, hrest⟩ := List.exists_cons_of_ne_nil hne
    rw [stmt_of_rest hrest] at h
    have htracks : Tracks (p.noting .statement t) q := ht
    have hhalts : Halts (p.noting .statement t) q fault p' :=
      stmtAt_follows.error htracks ⟨hdue, hrest⟩ h hfits
    exact hhalts

/-! ### Programs -/

theorem stmts_succ (limit : Nat) (p : Parser) :
    stmts (limit + 1) p =
      if p.rest = [] then .ok [] p
      else (stmt >>= fun first => stmts limit >>= fun others => pure (first :: others)) p := by
  show (if p.atEnd then pure [] else _ : Parse Program) p = _
  rw [Parser.atEnd]
  cases p.rest <;> rfl

/-- All statements up to the end, by induction on how many tokens may be left. -/
theorem stmts_follows (limit : Nat) :
    Follows (Between limit) (stmts limit) (fun p q => q.due = [] ∧ p.rest = []) fun used program =>
      Fitting used → ProgramOf used program := by
  induction limit with
  | zero =>
    constructor
    case ok =>
      intro p q program p' ht hbetween h
      obtain ⟨hdue, hlimit⟩ := hbetween
      cases h
      have hrest := List.length_eq_zero_iff.1 (Nat.le_zero.1 hlimit)
      exact ⟨[], q, .refl ht, ⟨hdue, hrest⟩, fun _ => .nil⟩
    case error =>
      intro p q fault p' _ _ h
      cases h
  | succ limit ih =>
    have hmore : Follows (fun p q => Between (limit + 1) p q ∧ p.rest ≠ [])
        (stmt >>= fun first => stmts limit >>= fun others => pure (first :: others))
        (fun p q => q.due = [] ∧ p.rest = [])
        fun used program => Fitting used → ProgramOf used program := by
      refine ((stmt_follows limit).bind fun first => ih.bind fun others => .pure _).imp ?_
      intro used program htaken hfits
      obtain ⟨first, ts, _, rfl, hfirst, others, us, _, rfl, hothers, rfl, rfl⟩ := htaken
      simp only [fitting_append] at hfits
      rw [List.append_nil]
      exact .cons (hfirst hfits.1) (hothers hfits.2.1)
    constructor
    case ok =>
      intro p q program p' ht hbetween h
      rw [stmts_succ] at h
      by_cases hrest : p.rest = []
      · rw [if_pos hrest] at h
        cases h
        exact ⟨[], q, .refl ht, ⟨hbetween.1, hrest⟩, fun _ => .nil⟩
      · rw [if_neg hrest] at h
        exact hmore.ok ht ⟨hbetween, hrest⟩ h
    case error =>
      intro p q fault p' ht hbetween h hfits
      rw [stmts_succ] at h
      by_cases hrest : p.rest = []
      · rw [if_pos hrest] at h
        cases h
      · rw [if_neg hrest] at h
        exact hmore.error ht ⟨hbetween, hrest⟩ h hfits

section Program
variable {tokens : List Token} {p : Parser}

theorem tracks_ofTokens : Tracks (.ofTokens tokens) .start :=
  rfl

theorem between_ofTokens : Between tokens.length (.ofTokens tokens) .start :=
  ⟨rfl, Nat.le_refl _⟩

/-- **What the parser returns** is the tree of all the tokens, which progress allows. -/
theorem program_ok {result : Program} (h : program (.ofTokens tokens) = .ok result p) :
    (∃ declared, Progress.start.run tokens = some ⟨[], declared⟩) ∧
      (Fitting tokens → ProgramOf tokens result) := by
  obtain ⟨used, ⟨due, declared⟩, hadv, ⟨hdue, hrest⟩, htree⟩ :=
    (stmts_follows tokens.length).ok tracks_ofTokens between_ofTokens h
  have hused : tokens = used := by
    have := hadv.rest
    rwa [hrest, List.append_nil] at this
  have hend : due = [] := hdue
  subst hused hend
  exact ⟨⟨declared, hadv.run⟩, htree⟩

/-- **Where the parser fails**, progress stops. -/
theorem program_error {fault : ParseFault} (h : program (.ofTokens tokens) = .error fault p)
    (hfits : Fitting tokens) :
    ∃ used left q taken, tokens = used ++ left ∧ Progress.start.run used = some q ∧
      p.index = used.length + (taken : Nat) ∧ Stops q left fault taken := by
  obtain ⟨used, left, q, taken, hrest, hrun, hindex, hstops⟩ :=
    (stmts_follows tokens.length).error tracks_ofTokens between_ofTokens h hfits
  have hstart : (Parser.ofTokens tokens).index = 0 := rfl
  rw [hstart, Int.zero_add] at hindex
  exact ⟨used, left, q, taken, hrest, hrun, hindex, hstops⟩

end Program

end LetPrint.Parse
