import LetPrint.Proofs.Recording
import LetPrint.Proofs.StraightLine

/-! Calling a parser by hand.

Any operation of a parser can be called on it, in any order and after any failure, and names can be
declared by hand between them. Each call takes tokens that were left and declares new names, and
does nothing else, also where it fails halfway (`Call.moves`). So a parser stays on its tokens,
and what it has once taken or declared stays so (`moves_forward`). -/
namespace LetPrint.Parser

/-- What can be called on a parser. -/
inductive Call where
  | peek
  | atEnd
  | nextIs (kind : TokenKind)
  | advance
  | consume (kinds : List TokenKind)
  | operand
  | expr
  | letStmt
  | printStmt
  | stmt
  | program
  | declare (token : Token)

/-- The parser after a call, whether or not the call has failed. To look at what comes next
changes nothing. -/
def Call.after (p : Parser) : Call → Parser
  | peek | atEnd | nextIs _ => p
  | advance => stateOf (Parse.advance p)
  | consume kinds => stateOf (Parse.consume kinds p)
  | operand => stateOf (Parse.operand p)
  | expr => stateOf (Parse.expr p)
  | letStmt => stateOf (Parse.letStmt p)
  | printStmt => stateOf (Parse.printStmt p)
  | stmt => stateOf (Parse.stmt p)
  | program => stateOf (Parse.program p)
  | declare token => stateOf (Parse.declare token p)

/-- A parser of some tokens after calls. -/
def called (tokens : List Token) (calls : List Call) : Parser :=
  calls.foldl Call.after (ofTokens tokens)

/-- The parser is further on, or where it was. -/
def MovesTo (p p' : Parser) : Prop :=
  ∃ taken named, p.Onward taken named p'

/-- The parser has a place among some tokens, or behind them; those from there on are left. No name
is declared twice. -/
structure OnTokens (p : Parser) (tokens : List Token) : Prop where
  given : p.tokens = tokens
  within : 0 ≤ p.index ∧ p.index ≤ tokens.length
  rest : p.rest = tokens.drop p.index.toNat
  distinct : p.symbols.names.Nodup

/-! ### One call -/

section Moves
variable {p p' : Parser} {tokens : List Token}

theorem MovesTo.refl (p : Parser) : p.MovesTo p :=
  ⟨[], [], .refl p⟩

theorem MovesTo.trans {p'' : Parser} (h : p.MovesTo p') (h' : p'.MovesTo p'') : p.MovesTo p'' := by
  obtain ⟨taken, named, h⟩ := h
  obtain ⟨taken', named', h'⟩ := h'
  exact ⟨_, _, h.trans h'⟩

theorem Records.moves {events : List ParseEvent} (h : p.Records events p') : p.MovesTo p' :=
  ⟨_, _, h.onward⟩

theorem MovesTo.index_le (h : p.MovesTo p') : p.index ≤ p'.index := by
  obtain ⟨taken, named, h⟩ := h
  rw [h.index]
  omega

/-- A declared name stays declared by the same token. -/
theorem MovesTo.find? (h : p.MovesTo p') {name : String} {t : Token}
    (hname : p.symbols.find? name = some t) : p'.symbols.find? name = some t := by
  obtain ⟨taken, named, h⟩ := h
  rw [Bindings.find?] at hname ⊢
  rw [h.symbols, List.lookup_append, hname]
  rfl

theorem OnTokens.moves (h : p.OnTokens tokens) (hmoves : p.MovesTo p') : p'.OnTokens tokens := by
  obtain ⟨taken, named, hmoves⟩ := hmoves
  obtain ⟨place, hplace⟩ := Int.eq_ofNat_of_zero_le h.within.1
  have hindex : p'.index = (place + taken.length : Nat) := by
    rw [hmoves.index, hplace, Int.natCast_add]
  have hsplit : tokens.drop place = taken ++ p'.rest := by
    rw [← hmoves.rest, h.rest, hplace, Int.toNat_natCast]
  have hleft : p'.rest = tokens.drop (place + taken.length) := by
    rw [← List.drop_drop, hsplit, List.drop_left]
  have hroom : taken.length + p'.rest.length = tokens.length - place := by
    rw [← List.length_append, ← hsplit, List.length_drop]
  have hle : p.index ≤ tokens.length := h.within.2
  refine ⟨hmoves.tokens.trans h.given, ⟨by omega, by omega⟩, ?_, hmoves.distinct h.distinct⟩
  rw [hindex, Int.toNat_natCast, hleft]

theorem onTokens_ofTokens (tokens : List Token) : (ofTokens tokens).OnTokens tokens :=
  ⟨rfl, ⟨Int.le_refl 0, Int.natCast_nonneg _⟩, rfl, List.nodup_nil⟩

theorem moves_of_leaves {α : Type} {f : Parse α} {done : α → List ParseEvent → Prop}
    {failed : List ParseEvent → Prop} (h : Parse.Leaves f done failed) (p : Parser) :
    p.MovesTo (stateOf (f p)) := by
  cases hf : f p with
  | ok v p' =>
    obtain ⟨events, hrecords, _⟩ := h.ok hf
    exact hrecords.moves
  | error fault p' =>
    obtain ⟨events, hrecords, _⟩ := h.error hf
    exact hrecords.moves

theorem moves_advance (p : Parser) : p.MovesTo (stateOf (Parse.advance p)) := by
  rw [Parse.advance]
  split
  · exact .refl p
  · next hrest => exact ⟨_, _, onward_taking hrest⟩

theorem moves_declare (t : Token) (p : Parser) : p.MovesTo (stateOf (Parse.declare t p)) := by
  rw [Parse.declare]
  split
  · exact .refl p
  · next hnew => exact ⟨_, _, onward_declaring (Bool.not_eq_true _ ▸ hnew)⟩

theorem moves_stmt (p : Parser) : p.MovesTo (stateOf (Parse.stmt p)) := by
  cases hrest : p.rest with
  | nil =>
    rw [Parse.stmt_of_rest_nil hrest]
    exact .refl p
  | cons t rest =>
    cases hstmt : Parse.stmt p with
    | ok s p' =>
      obtain ⟨events, hrecords, _⟩ := Parse.records_of_stmt hrest hstmt
      exact hrecords.moves
    | error fault p' =>
      obtain ⟨events, hrecords, _⟩ := Parse.records_of_stmt_error hrest hstmt
      exact hrecords.moves

theorem moves_program (p : Parser) : p.MovesTo (stateOf (Parse.program p)) := by
  show p.MovesTo (stateOf (Parse.stmts p.rest.length p))
  cases hprogram : Parse.stmts p.rest.length p with
  | ok result p' =>
    obtain ⟨read, hread, _⟩ := Parse.exists_reads hprogram
    obtain ⟨events, hrecords, _⟩ := hread.records
    exact hrecords.moves
  | error fault p' =>
    obtain ⟨read, start, t, hread, _, hstmt⟩ := Parse.exists_reads_of_error hprogram
    obtain ⟨events, hrecords, _⟩ := hread.records
    have hlast := moves_stmt start
    rw [hstmt] at hlast
    exact hrecords.moves.trans hlast

/-- **No call goes back**, and none does anything but go on. -/
theorem Call.moves (p : Parser) (call : Call) : p.MovesTo (call.after p) := by
  cases call with
  | peek => exact .refl p
  | atEnd => exact .refl p
  | nextIs kind => exact .refl p
  | advance => exact moves_advance p
  | consume kinds => exact moves_of_leaves (Parse.leaves_consume kinds) p
  | operand => exact moves_of_leaves Parse.takes_operand p
  | expr => exact moves_of_leaves Parse.takes_expr p
  | letStmt => exact moves_of_leaves Parse.leaves_letStmt p
  | printStmt => exact moves_of_leaves Parse.leaves_printStmt p
  | stmt => exact moves_stmt p
  | program => exact moves_program p
  | declare t => exact moves_declare t p

theorem onTokens_called (tokens : List Token) (calls : List Call) :
    (called tokens calls).OnTokens tokens := by
  have hfrom : ∀ p : Parser, p.OnTokens tokens → (calls.foldl Call.after p).OnTokens tokens := by
    induction calls with
    | nil => exact fun p hp => hp
    | cons call rest ih => exact fun p hp => ih _ (hp.moves (call.moves p))
  exact hfrom _ (onTokens_ofTokens tokens)

end Moves

/-! ### What particular calls do -/

/-- An operation that takes the next token if it succeeds, and otherwise does nothing. -/
def TakesOne (p : Parser) : EStateM.Result ParseFault Parser Token → Prop
  | .ok t p' => p.peek = some t ∧ p'.index = p.index + 1 ∧ p'.symbols = p.symbols
  | .error _ p' => p' = p

/-- No name is declared but that of the second token that is taken. -/
def NamesOne (p p' : Parser) : Prop :=
  p'.symbols = p.symbols ∨ ∃ name, p.rest[1]? = some name ∧ name.kind = .ident ∧
    p.index + 2 ≤ p'.index ∧ p'.symbols.entries = p.symbols.entries ++ [(name.raw, name)]

section Particular
variable {p p' : Parser} {events : List ParseEvent}

theorem takesOne_advance (p : Parser) : p.TakesOne (Parse.advance p) := by
  rw [Parse.advance]
  split
  · rfl
  · next hrest => exact ⟨by simp [peek, hrest], rfl, rfl⟩

theorem takesOne_consume (kinds : List TokenKind) (p : Parser) :
    p.TakesOne (Parse.consume kinds p) := by
  cases h : Parse.consume kinds p with
  | ok t p' =>
    obtain ⟨rest, hrest, _, rfl⟩ := Parse.consume_eq_ok.1 h
    exact ⟨by simp [peek, hrest], rfl, rfl⟩
  | error fault p' => exact Parse.state_of_consume_error h

theorem Records.symbols_eq (h : p.Records events p') (hnone : tokensOf .declare events = []) :
    p'.symbols = p.symbols := by
  have hentries := h.onward.symbols
  rw [hnone, List.map_nil, List.append_nil] at hentries
  exact congrArg Bindings.mk hentries

theorem Records.symbols_of_plain (h : p.Records events p') (hplain : Parse.Plain events) :
    p'.symbols = p.symbols :=
  h.symbols_eq (Parse.tokensOf_plain hplain (by decide))

/-- An operation that only takes tokens declares nothing, even if it fails. -/
theorem symbols_of_takes {α : Type} {f : Parse α} {P : α → Prop} (h : Parse.Takes f P)
    (p : Parser) : (stateOf (f p)).symbols = p.symbols := by
  cases hf : f p with
  | ok v p' =>
    obtain ⟨events, hrecords, _, hplain⟩ := h.ok hf
    exact hrecords.symbols_of_plain hplain
  | error fault p' =>
    obtain ⟨events, hrecords, hplain⟩ := h.error hf
    exact hrecords.symbols_of_plain hplain

theorem Records.namesOne {first name : Token} (hname : name.kind = .ident)
    (hplain : Parse.Plain events)
    (h : p.Records (⟨.consume, first⟩ :: ⟨.consume, name⟩ :: ⟨.declare, name⟩ :: events) p') :
    p.NamesOne p' := by
  have hnone : tokensOf .declare events = [] := Parse.tokensOf_plain hplain (by decide)
  have hrest := h.onward.rest
  have hindex := h.onward.index
  have hsymbols := h.onward.symbols
  simp only [tokensOf_cons, reduceCtorEq, if_true, if_false, hnone] at hrest hindex hsymbols
  refine .inr ⟨name, by rw [hrest]; rfl, hname, ?_, hsymbols⟩
  rw [hindex, List.length_cons, List.length_cons]
  omega

/-- **A let statement declares no more than its name**, even if it fails after that. -/
theorem namesOne_letStmt (p : Parser) : p.NamesOne (stateOf (Parse.letStmt p)) := by
  cases h : Parse.letStmt p with
  | ok s p' =>
    obtain ⟨events, hrecords, first, hshape⟩ := Parse.leaves_letStmt.ok h
    cases hshape with
    | letStmt _ hname hplain => exact hrecords.namesOne hname hplain
    | printStmt _ hplain =>
      exact .inl (hrecords.symbols_eq (by simp [Parse.tokensOf_plain hplain]))
  | error fault p' =>
    obtain ⟨events, hrecords, hshape⟩ := Parse.leaves_letStmt.error h
    cases hshape with
    | unnamed => exact .inl (hrecords.symbols_eq (by simp))
    | refused => exact .inl (hrecords.symbols_eq (by simp))
    | named _ hname hplain => exact hrecords.namesOne hname hplain
    | plain hplain => exact .inl (hrecords.symbols_of_plain hplain)

end Particular

/-- **A parser only moves forward**, whatever is called on it, and whether or not that fails. It
stays on its tokens, and no call goes back or makes it forget or change a declared name. A token is
taken at a time, operands and expressions declare nothing, and a let statement declares its name
only. -/
theorem moves_forward (tokens : List Token) (calls : List Call) :
    (called tokens calls).OnTokens tokens ∧
      (∀ call : Call, (called tokens calls).index ≤ (call.after (called tokens calls)).index ∧
        ∀ name t, (called tokens calls).symbols.find? name = some t →
          (call.after (called tokens calls)).symbols.find? name = some t) ∧
      (∀ kinds, (called tokens calls).TakesOne (Parse.consume kinds (called tokens calls))) ∧
      (called tokens calls).TakesOne (Parse.advance (called tokens calls)) ∧
      (stateOf (Parse.operand (called tokens calls))).symbols = (called tokens calls).symbols ∧
      (stateOf (Parse.expr (called tokens calls))).symbols = (called tokens calls).symbols ∧
      (called tokens calls).NamesOne (stateOf (Parse.letStmt (called tokens calls))) := by
  refine ⟨onTokens_called tokens calls, fun call => ?_, fun kinds => takesOne_consume kinds _,
    takesOne_advance _, symbols_of_takes Parse.takes_operand _, symbols_of_takes Parse.takes_expr _,
    namesOne_letStmt _⟩
  have hmoves := call.moves (called tokens calls)
  exact ⟨hmoves.index_le, fun name t hname => hmoves.find? hname⟩

end LetPrint.Parser
