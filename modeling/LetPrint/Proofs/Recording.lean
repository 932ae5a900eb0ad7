import LetPrint.Proofs.Parsing

/-! What the parser does, and what it records.

An operation of the parser takes tokens that were left and declares names, in order, and never
goes back (`Parser.Onward`). It does so one action at a time and records each, so that the records
of an operation say which tokens it has taken and which names it has declared, also where it fails
(`Parser.Records`). What the records of an operation look like is put together the way operations
are (`Parse.Leaves`): an expression takes tokens and declares nothing, a let statement declares one
name, right after it has taken it (`leaves_expr`, `leaves_letStmt`). -/
namespace LetPrint

/-- The tokens that one kind of action is recorded for, in order. -/
def tokensOf (action : ParseAction) (events : List ParseEvent) : List Token :=
  (events.filter fun event => event.action = action).map ParseEvent.token

section Tokens
variable (action : ParseAction)

@[simp]
theorem tokensOf_nil : tokensOf action [] = [] := rfl

@[simp]
theorem tokensOf_append (first second : List ParseEvent) :
    tokensOf action (first ++ second) = tokensOf action first ++ tokensOf action second := by
  simp [tokensOf]

@[simp]
theorem tokensOf_cons (event : ParseEvent) (events : List ParseEvent) :
    tokensOf action (event :: events) =
      if event.action = action then event.token :: tokensOf action events
      else tokensOf action events := by
  unfold tokensOf
  split <;> simp [*]

end Tokens

/-! ### Going on -/

namespace Parser

/-- A parser that is further on: it has taken some of the tokens that were left and declared the
names of some tokens, and otherwise it is as it was. -/
structure Onward (p : Parser) (taken named : List Token) (p' : Parser) : Prop where
  tokens : p'.tokens = p.tokens
  rest : p.rest = taken ++ p'.rest
  index : p'.index = p.index + taken.length
  symbols : p'.symbols.entries = p.symbols.entries ++ named.map fun t => (t.raw, t)
  distinct : p.symbols.names.Nodup → p'.symbols.names.Nodup

/-- A parser that is further on, and has recorded how it came there. -/
structure Records (p : Parser) (events : List ParseEvent) (p' : Parser) : Prop where
  onward : p.Onward (tokensOf .consume events) (tokensOf .declare events) p'
  recorded : p'.events.toList = p.events.toList ++ events

section
variable {p p' p'' : Parser} {t : Token} {rest : List Token}

theorem Onward.refl (p : Parser) : p.Onward [] [] p :=
  ⟨rfl, rfl, by simp, by simp, id⟩

theorem Onward.trans {taken taken' named named' : List Token} (h : p.Onward taken named p')
    (h' : p'.Onward taken' named' p'') : p.Onward (taken ++ taken') (named ++ named') p'' where
  tokens := h'.tokens.trans h.tokens
  rest := by rw [h.rest, h'.rest, List.append_assoc]
  index := by rw [h'.index, h.index, List.length_append, Int.natCast_add, Int.add_assoc]
  symbols := by rw [h'.symbols, h.symbols, List.map_append, List.append_assoc]
  distinct := h'.distinct ∘ h.distinct

theorem Onward.noting {taken named : List Token} (h : p.Onward taken named p')
    (action : ParseAction) (t : Token) : p.Onward taken named (p'.noting action t) :=
  ⟨h.tokens, h.rest, h.index, h.symbols, h.distinct⟩

theorem onward_taking (hrest : p.rest = t :: rest) : p.Onward [t] [] (p.taking rest) :=
  ⟨rfl, hrest, rfl, by simp [taking], id⟩

theorem onward_declaring (hnew : p.symbols.contains t.raw = false) :
    p.Onward [] [t] (p.declaring t) := by
  have hname : t.raw ∉ p.symbols.names := fun hmem => by
    simp [Bindings.contains_iff.2 hmem] at hnew
  refine ⟨rfl, rfl, by simp [declaring], Bindings.entries_insert t hname, fun hdistinct => ?_⟩
  show (p.symbols.insert t.raw t).names.Nodup
  rw [Bindings.names_insert t hname]
  refine List.nodup_append.2 ⟨hdistinct, by simp, fun name hmem other hother => ?_⟩
  rw [List.mem_singleton.1 hother]
  exact fun heq => hname (heq ▸ hmem)

theorem Records.refl (p : Parser) : p.Records [] p :=
  ⟨.refl p, by simp⟩

theorem Records.trans {events events' : List ParseEvent} (h : p.Records events p')
    (h' : p'.Records events' p'') : p.Records (events ++ events') p'' where
  onward := by
    rw [tokensOf_append, tokensOf_append]
    exact h.onward.trans h'.onward
  recorded := by rw [h'.recorded, h.recorded, List.append_assoc]

theorem records_statement (p : Parser) (t : Token) :
    p.Records [⟨.statement, t⟩] (p.noting .statement t) := by
  refine ⟨?_, Array.toList_push⟩
  simp only [tokensOf_cons, tokensOf_nil, reduceCtorEq, if_false]
  exact (Onward.refl p).noting .statement t

theorem records_taking (hrest : p.rest = t :: rest) :
    p.Records [⟨.consume, t⟩] ((p.noting .consume t).taking rest) := by
  refine ⟨?_, Array.toList_push⟩
  simp only [tokensOf_cons, tokensOf_nil, reduceCtorEq, if_true, if_false]
  exact (onward_taking hrest).noting .consume t

theorem records_declaring (hnew : p.symbols.contains t.raw = false) :
    p.Records [⟨.declare, t⟩] ((p.declaring t).noting .declare t) := by
  refine ⟨?_, Array.toList_push⟩
  simp only [tokensOf_cons, tokensOf_nil, reduceCtorEq, if_true, if_false]
  exact (onward_declaring hnew).noting .declare t

end

end Parser

/-! ### Operations -/

namespace Parse

/-- An operation of the parser is recorded in one way where it succeeds, and in another where it
fails. -/
structure Leaves {α : Type} (f : Parse α) (done : α → List ParseEvent → Prop)
    (failed : List ParseEvent → Prop) : Prop where
  ok : ∀ {p v p'}, f p = .ok v p' → ∃ events, p.Records events p' ∧ done v events
  error : ∀ {p fault p'}, f p = .error fault p' → ∃ events, p.Records events p' ∧ failed events

section Sequences
variable {α β : Type} {f : Parse α} {g : α → Parse β} {done : α → List ParseEvent → Prop}
variable {failed : List ParseEvent → Prop}

theorem Leaves.imp {done' : α → List ParseEvent → Prop} {failed' : List ParseEvent → Prop}
    (h : Leaves f done failed) (hdone : ∀ v events, done v events → done' v events)
    (hfailed : ∀ events, failed events → failed' events) : Leaves f done' failed' := by
  constructor
  case ok =>
    intro p v p' hf
    obtain ⟨events, hrecords, hv⟩ := h.ok hf
    exact ⟨events, hrecords, hdone v events hv⟩
  case error =>
    intro p fault p' hf
    obtain ⟨events, hrecords, hevents⟩ := h.error hf
    exact ⟨events, hrecords, hfailed events hevents⟩

theorem Leaves.bind {done' : α → β → List ParseEvent → Prop} {failed' : List ParseEvent → Prop}
    (hf : Leaves f done failed) (hg : ∀ v, Leaves (g v) (done' v) failed') :
    Leaves (f >>= g)
      (fun w events => ∃ v first second, events = first ++ second ∧ done v first ∧ done' v w second)
      fun events => failed events ∨
        ∃ v first second, events = first ++ second ∧ done v first ∧ failed' second := by
  constructor
  case ok =>
    intro p w p'' h
    obtain ⟨v, p', hv, hw⟩ := bind_eq_ok.1 h
    obtain ⟨first, hfirst, hdone⟩ := hf.ok hv
    obtain ⟨second, hsecond, hdone'⟩ := (hg v).ok hw
    exact ⟨first ++ second, hfirst.trans hsecond, v, first, second, rfl, hdone, hdone'⟩
  case error =>
    intro p fault p'' h
    rcases bind_eq_error.1 h with herror | ⟨v, p', hv, herror⟩
    · obtain ⟨events, hrecords, hfailed⟩ := hf.error herror
      exact ⟨events, hrecords, .inl hfailed⟩
    · obtain ⟨first, hfirst, hdone⟩ := hf.ok hv
      obtain ⟨second, hsecond, hfailed⟩ := (hg v).error herror
      exact ⟨first ++ second, hfirst.trans hsecond, .inr ⟨v, first, second, rfl, hdone, hfailed⟩⟩

theorem leaves_pure (v : α) :
    Leaves (pure v) (fun w events => w = v ∧ events = []) fun _ => False := by
  constructor
  case ok =>
    intro p w p' h
    cases h
    exact ⟨[], .refl p, rfl, rfl⟩
  case error =>
    intro p fault p' h
    cases h

theorem leaves_throw (fault : ParseFault) :
    Leaves (throw fault : Parse α) (fun _ _ => False) fun events => events = [] := by
  constructor
  case ok =>
    intro p v p' h
    cases h
  case error =>
    intro p other p' h
    cases h
    exact ⟨[], .refl p, rfl⟩

theorem leaves_get : Leaves get (fun _ events => events = []) fun _ => False := by
  constructor
  case ok =>
    intro p v p' h
    cases h
    exact ⟨[], .refl p, rfl⟩
  case error =>
    intro p fault p' h
    cases h

end Sequences

/-- An operation that fails without taking the next token changes nothing. -/
theorem state_of_consume_error {kinds : List TokenKind} {p p' : Parser} {fault : ParseFault}
    (h : consume kinds p = .error fault p') : p' = p := by
  rw [consume] at h
  split at h
  · cases h
    rfl
  · split at h
    · cases h
    · cases h
      rfl

theorem leaves_consume (kinds : List TokenKind) :
    Leaves (consume kinds) (fun t events => t.kind ∈ kinds ∧ events = [⟨.consume, t⟩])
      fun events => events = [] := by
  constructor
  case ok =>
    intro p t p' h
    obtain ⟨rest, hrest, hkind, rfl⟩ := consume_eq_ok.1 h
    exact ⟨_, Parser.records_taking hrest, hkind, rfl⟩
  case error =>
    intro p fault p' h
    rw [state_of_consume_error h]
    exact ⟨[], .refl p, rfl⟩

/-! ### Expressions -/

/-- Tokens are taken, the word `let` not among them, and nothing else is done. -/
def Plain (events : List ParseEvent) : Prop :=
  ∀ event ∈ events, event.action = .consume ∧ event.token.kind ≠ .letWord

@[simp]
theorem plain_nil : Plain [] := by
  simp [Plain]

@[simp]
theorem plain_append {first second : List ParseEvent} :
    Plain (first ++ second) ↔ Plain first ∧ Plain second :=
  List.forall_mem_append

@[simp]
theorem plain_cons {event : ParseEvent} {events : List ParseEvent} :
    Plain (event :: events) ↔
      (event.action = .consume ∧ event.token.kind ≠ .letWord) ∧ Plain events :=
  List.forall_mem_cons

theorem tokensOf_plain {events : List ParseEvent} (hplain : Plain events) {action : ParseAction}
    (haction : action ≠ .consume) : tokensOf action events = [] := by
  rw [tokensOf, List.map_eq_nil_iff, List.filter_eq_nil_iff]
  intro event hevent
  simpa [(hplain event hevent).1] using haction.symm

/-- Whether it succeeds or fails, the operation only takes tokens; what it returns has some
property. -/
def Takes {α : Type} (f : Parse α) (P : α → Prop) : Prop :=
  Leaves f (fun v events => P v ∧ Plain events) Plain

section Takes
variable {α β : Type} {P : α → Prop} {Q : β → Prop}

theorem Takes.bind {f : Parse α} {g : α → Parse β} (hf : Takes f P) (hg : ∀ v, Takes (g v) Q) :
    Takes (f >>= g) Q := by
  refine (Leaves.bind hf hg).imp ?_ ?_
  · rintro w _ ⟨v, first, second, rfl, ⟨_, hfirst⟩, hw, hsecond⟩
    exact ⟨hw, plain_append.2 ⟨hfirst, hsecond⟩⟩
  · rintro _ (hfailed | ⟨v, first, second, rfl, ⟨_, hfirst⟩, hsecond⟩)
    · exact hfailed
    · exact plain_append.2 ⟨hfirst, hsecond⟩

theorem takes_pure {v : α} (hv : P v) : Takes (pure v) P := by
  refine (leaves_pure v).imp ?_ (by simp)
  rintro _ _ ⟨rfl, rfl⟩
  exact ⟨hv, plain_nil⟩

theorem takes_throw (fault : ParseFault) : Takes (throw fault) P :=
  (leaves_throw fault).imp (by simp) (by simp)

theorem takes_get : Takes get fun _ => True :=
  leaves_get.imp (by simp) (by simp)

theorem takes_consume {kinds : List TokenKind} (hlet : .letWord ∉ kinds) :
    Takes (consume kinds) fun t => t.kind ∈ kinds := by
  refine (leaves_consume kinds).imp ?_ (by simp)
  rintro t _ ⟨hkind, rfl⟩
  have hne : t.kind ≠ .letWord := fun heq => hlet (heq ▸ hkind)
  simp [hkind, hne]

theorem takes_operand : Takes operand fun _ => True := by
  refine (takes_consume (by decide)).bind fun t => ?_
  split
  · cases Text.Numeral.read t.raw with
    | some value => exact takes_pure trivial
    | none => exact takes_throw _
  · refine takes_get.bind fun p => ?_
    split
    · exact takes_pure trivial
    · exact takes_throw _

theorem takes_operation (left : Expr) : Takes (operation left) fun _ => True := by
  refine (takes_consume (by decide)).bind fun op => takes_operand.bind fun right => ?_
  cases BinOp.ofSymbol? op.raw with
  | some op => exact takes_pure trivial
  | none => exact takes_throw _

theorem takes_expr : Takes expr fun _ => True := by
  refine takes_operand.bind fun left => takes_get.bind fun p => ?_
  split
  · exact takes_operation left
  · exact takes_pure trivial

end Takes

/-! ### Statements -/

/-- The records of a statement that is parsed to the end, from its first token on. -/
inductive StmtRecords : Token → Stmt → List ParseEvent → Prop
  | letStmt {first name : Token} {value : Expr} {stop : Int} {events : List ParseEvent} :
    first.kind = .letWord → name.kind = .ident → Plain events →
      StmtRecords first (.letStmt name value ⟨first.span.start, stop⟩)
        (⟨.consume, first⟩ :: ⟨.consume, name⟩ :: ⟨.declare, name⟩ :: events)
  | printStmt {first : Token} {value : Expr} {stop : Int} {events : List ParseEvent} :
    first.kind = .printWord → Plain events →
      StmtRecords first (.printStmt value ⟨first.span.start, stop⟩) (⟨.consume, first⟩ :: events)

/-- The records of a statement that fails: in a let statement before its name, at its name because
that is declared already, or after it; and anywhere in another statement. -/
inductive BrokenRecords : List ParseEvent → Prop
  | unnamed {first : Token} : first.kind = .letWord → BrokenRecords [⟨.consume, first⟩]
  | refused {first name : Token} : first.kind = .letWord → name.kind = .ident →
    BrokenRecords [⟨.consume, first⟩, ⟨.consume, name⟩]
  | named {first name : Token} {events : List ParseEvent} : first.kind = .letWord →
    name.kind = .ident → Plain events →
      BrokenRecords (⟨.consume, first⟩ :: ⟨.consume, name⟩ :: ⟨.declare, name⟩ :: events)
  | plain {events : List ParseEvent} : Plain events → BrokenRecords events

theorem leaves_newName :
    Leaves newName
      (fun t events => t.kind = .ident ∧ events = [⟨.consume, t⟩, ⟨.declare, t⟩])
      fun events => events = [] ∨ ∃ t, t.kind = .ident ∧ events = [⟨.consume, t⟩] := by
  constructor
  case ok =>
    intro p t p'' h
    obtain ⟨t', p', hconsume, _⟩ := bind_eq_ok.1 h
    rw [newName_of_consume hconsume] at h
    obtain ⟨_, hrecords, hkind, rfl⟩ := (leaves_consume _).ok hconsume
    split at h
    · cases h
    · next hnew =>
      cases h
      have hdeclared : p'.Records [⟨.declare, t⟩] ((p'.declaring t).noting .declare t) :=
        Parser.records_declaring (by simp [Bindings.contains, hnew])
      exact ⟨_, hrecords.trans hdeclared, List.mem_singleton.1 hkind, rfl⟩
  case error =>
    intro p fault p'' h
    rcases bind_eq_error.1 h with herror | ⟨t, p', hconsume, _⟩
    · obtain ⟨_, hrecords, rfl⟩ := (leaves_consume _).error herror
      exact ⟨[], hrecords, .inl rfl⟩
    · rw [newName_of_consume hconsume] at h
      obtain ⟨_, hrecords, hkind, rfl⟩ := (leaves_consume _).ok hconsume
      split at h
      · cases h
        exact ⟨_, hrecords, .inr ⟨t, List.mem_singleton.1 hkind, rfl⟩⟩
      · cases h

/-- What comes after the name of a let statement. -/
theorem takes_initializer (first name : Token) :
    Takes (do
      let _ ← consume [.equals]
      let value ← expr
      let last ← consume [.semicolon]
      return Stmt.letStmt name value ⟨first.span.start, last.span.stop⟩)
      fun s => ∃ value stop, s = .letStmt name value ⟨first.span.start, stop⟩ :=
  (takes_consume (by decide)).bind fun _ => takes_expr.bind fun value =>
    (takes_consume (by decide)).bind fun last => takes_pure ⟨value, last.span.stop, rfl⟩

/-- What comes after the keyword of a print statement. -/
theorem takes_printed (first : Token) :
    Takes (do
      let _ ← consume [.openParen]
      let value ← expr
      let _ ← consume [.closeParen]
      let last ← consume [.semicolon]
      return Stmt.printStmt value ⟨first.span.start, last.span.stop⟩)
      fun s => ∃ value stop, s = .printStmt value ⟨first.span.start, stop⟩ :=
  (takes_consume (by decide)).bind fun _ => takes_expr.bind fun value =>
    (takes_consume (by decide)).bind fun _ =>
      (takes_consume (by decide)).bind fun last => takes_pure ⟨value, last.span.stop, rfl⟩

/-- **A let statement** declares the name that it has just taken, before it goes on. -/
theorem leaves_letStmt :
    Leaves letStmt (fun s events => ∃ first, StmtRecords first s events) BrokenRecords := by
  refine ((leaves_consume [.letWord]).bind fun first =>
    leaves_newName.bind fun name => takes_initializer first name).imp ?_ ?_
  · rintro s _ ⟨first, _, _, rfl, ⟨hfirst, rfl⟩, name, _, events, rfl, ⟨hname, rfl⟩,
      ⟨value, stop, rfl⟩, hplain⟩
    exact ⟨first, .letStmt (List.mem_singleton.1 hfirst) hname hplain⟩
  · rintro _ (rfl | ⟨first, _, _, rfl, ⟨hfirst, rfl⟩, (rfl | ⟨name, hname, rfl⟩) |
      ⟨name, _, events, rfl, ⟨hname, rfl⟩, hplain⟩⟩)
    · exact .plain plain_nil
    · exact .unnamed (List.mem_singleton.1 hfirst)
    · exact .refused (List.mem_singleton.1 hfirst) hname
    · exact .named (List.mem_singleton.1 hfirst) hname hplain

theorem leaves_printStmt :
    Leaves printStmt (fun s events => ∃ first, StmtRecords first s events) Plain := by
  refine ((leaves_consume [.printWord]).bind fun first => takes_printed first).imp ?_ ?_
  · rintro s _ ⟨first, _, events, rfl, ⟨hfirst, rfl⟩, ⟨value, stop, rfl⟩, hplain⟩
    exact ⟨first, .printStmt (List.mem_singleton.1 hfirst) hplain⟩
  · rintro _ (rfl | ⟨first, _, events, rfl, ⟨hfirst, rfl⟩, hplain⟩)
    · exact plain_nil
    · simp [List.mem_singleton.1 hfirst, hplain]

theorem StmtRecords.exists_taken {first : Token} {s : Stmt} {events : List ParseEvent}
    (h : StmtRecords first s events) : ∃ more, tokensOf .consume events = first :: more := by
  cases h <;> simp

theorem stmtAt_cases (t : Token) :
    stmtAt t = letStmt ∨ stmtAt t = printStmt ∨
      stmtAt t = throw (.unexpected [.letWord, .printWord] (some t)) := by
  unfold stmtAt
  split
  · exact .inl rfl
  · exact .inr (.inl rfl)
  · exact .inr (.inr rfl)

section Stmt
variable {p p' : Parser} {t : Token} {rest : List Token}

/-- **A statement** is recorded with the next token, which is the first that it takes. -/
theorem records_of_stmt {s : Stmt} (hrest : p.rest = t :: rest) (h : stmt p = .ok s p') :
    ∃ events, p.Records (⟨.statement, t⟩ :: events) p' ∧ StmtRecords t s events := by
  have hstatement := Parser.records_statement p t
  have hbegins : ∀ {first events}, (p.noting .statement t).Records events p' →
      StmtRecords first s events → first = t := by
    intro first events hrecords hshape
    obtain ⟨more, htaken⟩ := hshape.exists_taken
    have hsplit : p.rest = tokensOf .consume events ++ p'.rest := hrecords.onward.rest
    rw [hrest, htaken] at hsplit
    exact (List.cons.inj hsplit).1.symm
  rw [stmt_of_rest hrest] at h
  rcases stmtAt_cases t with hkind | hkind | hkind <;> rw [hkind] at h
  · obtain ⟨events, hrecords, first, hshape⟩ := leaves_letStmt.ok h
    obtain rfl := hbegins hrecords hshape
    exact ⟨events, hstatement.trans hrecords, hshape⟩
  · obtain ⟨events, hrecords, first, hshape⟩ := leaves_printStmt.ok h
    obtain rfl := hbegins hrecords hshape
    exact ⟨events, hstatement.trans hrecords, hshape⟩
  · cases h

/-- A statement that fails is recorded with the next token too, even if no statement begins so. -/
theorem records_of_stmt_error {fault : ParseFault} (hrest : p.rest = t :: rest)
    (h : stmt p = .error fault p') :
    ∃ events, p.Records (⟨.statement, t⟩ :: events) p' ∧ BrokenRecords events := by
  have hstatement := Parser.records_statement p t
  rw [stmt_of_rest hrest] at h
  rcases stmtAt_cases t with hkind | hkind | hkind <;> rw [hkind] at h
  · obtain ⟨events, hrecords, hshape⟩ := leaves_letStmt.error h
    exact ⟨events, hstatement.trans hrecords, hshape⟩
  · obtain ⟨events, hrecords, hplain⟩ := leaves_printStmt.error h
    exact ⟨events, hstatement.trans hrecords, .plain hplain⟩
  · cases h
    exact ⟨[], hstatement, .plain plain_nil⟩

theorem stmt_of_rest_nil (hrest : p.rest = []) : stmt p = .error .noStatement p := by
  obtain ⟨tokens, index, left, symbols, events⟩ := p
  have hleft : left = [] := hrest
  subst hleft
  rfl

end Stmt

/-! ### Programs -/

/-- Statements that are parsed one after the other, each with its first token. -/
inductive Reads : Parser → List (Token × Stmt) → Parser → Prop
  | nil (p : Parser) : Reads p [] p
  | cons {p p' p'' : Parser} {t : Token} {s : Stmt} {read : List (Token × Stmt)} :
    p.peek = some t → stmt p = .ok s p' → Reads p' read p'' → Reads p ((t, s) :: read) p''

/-- The records of statements that are parsed to the end. -/
inductive ProgramRecords : List (Token × Stmt) → List ParseEvent → Prop
  | nil : ProgramRecords [] []
  | cons {t : Token} {s : Stmt} {read : List (Token × Stmt)} {events more : List ParseEvent} :
    StmtRecords t s events → ProgramRecords read more →
      ProgramRecords ((t, s) :: read) (⟨.statement, t⟩ :: events ++ more)

section Programs
variable {p p' : Parser} {limit : Nat}

theorem rest_of_peek {t : Token} (h : p.peek = some t) : ∃ rest, p.rest = t :: rest :=
  List.head?_eq_some_iff.1 h

theorem Reads.records {read : List (Token × Stmt)} (h : Reads p read p') :
    ∃ events, p.Records events p' ∧ ProgramRecords read events := by
  induction h with
  | nil p => exact ⟨[], .refl p, .nil⟩
  | cons hpeek hstmt _ ih =>
    obtain ⟨rest, hrest⟩ := rest_of_peek hpeek
    obtain ⟨events, hfirst, hshape⟩ := records_of_stmt hrest hstmt
    obtain ⟨more, hmore, hothers⟩ := ih
    exact ⟨_, hfirst.trans hmore, .cons hshape hothers⟩

/-- **A program is its statements**, parsed one after the other. -/
theorem exists_reads {result : Program} (h : stmts limit p = .ok result p') :
    ∃ read, Reads p read p' ∧ read.map Prod.snd = result := by
  induction limit generalizing p result with
  | zero =>
    cases h
    exact ⟨[], .nil _, rfl⟩
  | succ limit ih =>
    rw [stmts_succ] at h
    split at h
    · cases h
      exact ⟨[], .nil _, rfl⟩
    · next hrest =>
      obtain ⟨t, rest, hrest⟩ := List.exists_cons_of_ne_nil hrest
      obtain ⟨first, between, hfirst, hmore⟩ := bind_eq_ok.1 h
      obtain ⟨others, last, hothers, hpure⟩ := bind_eq_ok.1 hmore
      cases hpure
      obtain ⟨read, hread, rfl⟩ := ih hothers
      exact ⟨(t, first) :: read, .cons (by simp [Parser.peek, hrest]) hfirst hread, rfl⟩

/-- A program fails at one of its statements, and those before it are parsed. -/
theorem exists_reads_of_error {fault : ParseFault} (h : stmts limit p = .error fault p') :
    ∃ read start t, Reads p read start ∧ start.peek = some t ∧ stmt start = .error fault p' := by
  induction limit generalizing p with
  | zero => cases h
  | succ limit ih =>
    rw [stmts_succ] at h
    split at h
    · cases h
    · next hrest =>
      obtain ⟨t, rest, hrest⟩ := List.exists_cons_of_ne_nil hrest
      have hpeek : p.peek = some t := by simp [Parser.peek, hrest]
      rcases bind_eq_error.1 h with hfirst | ⟨first, between, hfirst, hmore⟩
      · exact ⟨[], p, t, .nil p, hpeek, hfirst⟩
      · rcases bind_eq_error.1 hmore with hothers | ⟨others, last, _, hpure⟩
        · obtain ⟨read, start, t', hread, hstart, hstmt⟩ := ih hothers
          exact ⟨(t, first) :: read, start, t', .cons hpeek hfirst hread, hstart, hstmt⟩
        · cases hpure

end Programs

end Parse

end LetPrint
