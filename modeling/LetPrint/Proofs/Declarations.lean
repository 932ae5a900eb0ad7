import LetPrint.Proofs.Operands

/-! Which token the parser takes for the declaration of a name.

For every name that the parser knows, it has the first identifier of that name among the tokens
that it has taken (`KnowsFirst`): a let statement declares a name only if no identifier before
gave it, and an operand gives no new name. All operations of the parser keep that
(`Remembers`). So where the parser refuses to declare a name again, it cites the first
identifier of that name among all the tokens, and a name that it does not know occurs there for
the first time (`citesFirst_of_error`). -/
namespace LetPrint

/-- The first identifier of a name. -/
def firstNaming (tokens : List Token) (name : String) : Option Token :=
  tokens.find? fun t => t.kind = .ident && t.raw = name

/-- A parser that has taken some of the tokens knows, for each name in them, the first
identifier of that name. -/
def KnowsFirst (tokens : List Token) (p : Parser) : Prop :=
  ∃ used, tokens = used ++ p.rest ∧ ∀ name, p.symbols.find? name = firstNaming used name

/-- A fault about a name shows the first identifier of that name: the declaration, or the very
token that is at fault. -/
def ParseFault.CitesFirst (tokens : List Token) : ParseFault → Prop
  | redeclared name first => firstNaming tokens name.raw = some first
  | undeclared name => firstNaming tokens name.raw = some name
  | _ => True

section Names
variable {tokens rest : List Token} {t : Token} {name : String}

theorem firstNaming_append_of_some {first : Token} (h : firstNaming tokens name = some first)
    (rest : List Token) : firstNaming (tokens ++ rest) name = some first := by
  rw [firstNaming, List.find?_append, ← firstNaming, h, Option.some_or]

/-- An identifier of a new name is the first one. -/
theorem firstNaming_append_of_none (h : firstNaming tokens t.raw = none) (hident : t.kind = .ident)
    (rest : List Token) : firstNaming (tokens ++ t :: rest) t.raw = some t := by
  rw [firstNaming, List.find?_append, ← firstNaming, h, Option.none_or]
  apply List.find?_cons_of_pos
  rw [decide_eq_true hident, decide_eq_true rfl]
  rfl

/-- One more token only matters if it is an identifier of a new name. -/
theorem firstNaming_concat (tokens : List Token) (t : Token) (name : String) :
    firstNaming (tokens ++ [t]) name =
      (firstNaming tokens name).or (if t.kind = .ident ∧ t.raw = name then some t else none) := by
  rw [firstNaming, List.find?_append, ← firstNaming, List.find?_singleton]
  simp only [Bool.and_eq_true, decide_eq_true_eq]

/-- A token that is no identifier gives no name, and one of a known name no new one. -/
theorem firstNaming_concat_of_known (h : t.kind = .ident → (firstNaming tokens t.raw).isSome)
    (name : String) : firstNaming (tokens ++ [t]) name = firstNaming tokens name := by
  rw [firstNaming_concat]
  by_cases hgives : t.kind = .ident ∧ t.raw = name
  · obtain ⟨first, hfirst⟩ := Option.isSome_iff_exists.1 (h hgives.1)
    rw [← hgives.2, hfirst, Option.some_or]
  · rw [if_neg hgives, Option.or_none]

/-- The parser with one more token taken, which gives no new name. -/
theorem KnowsFirst.taking {p : Parser} (h : KnowsFirst tokens p)
    (hrest : p.rest = t :: rest) (hknown : t.kind = .ident → p.symbols.contains t.raw = true) :
    KnowsFirst tokens ((p.noting .consume t).taking rest) := by
  obtain ⟨used, rfl, hsymbols⟩ := h
  refine ⟨used ++ [t], by simp [hrest, Parser.taking], fun name => ?_⟩
  have hgiven : t.kind = .ident → (firstNaming used t.raw).isSome := fun hident => by
    rw [← hsymbols]
    exact hknown hident
  rw [firstNaming_concat_of_known hgiven, ← hsymbols]
  rfl

end Names

namespace Parse

/-- An operation of the parser keeps what the parser knows about names, and fails with no fault
that cites another token than the first of a name. -/
structure Remembers {α : Type} (tokens : List Token) (f : Parse α) : Prop where
  ok : ∀ {p v p'}, KnowsFirst tokens p → f p = .ok v p' → KnowsFirst tokens p'
  error : ∀ {p fault p'}, KnowsFirst tokens p → f p = .error fault p' → fault.CitesFirst tokens

section Operations
variable {α β : Type} {tokens : List Token}

theorem Remembers.bind {f : Parse α} {g : α → Parse β} (hf : Remembers tokens f)
    (hg : ∀ v, Remembers tokens (g v)) : Remembers tokens (f >>= g) := by
  constructor
  case ok =>
    intro p w p'' hp h
    obtain ⟨v, p', hv, hw⟩ := bind_eq_ok.1 h
    exact (hg v).ok (hf.ok hp hv) hw
  case error =>
    intro p fault p'' hp h
    rcases bind_eq_error.1 h with herror | ⟨v, p', hv, herror⟩
    · exact hf.error hp herror
    · exact (hg v).error (hf.ok hp hv) herror

theorem remembers_pure (v : α) : Remembers tokens (pure v) := by
  constructor
  case ok =>
    intro p w p' hp h
    cases h
    exact hp
  case error =>
    intro p fault p' _ h
    cases h

theorem remembers_throw {fault : ParseFault} (h : fault.CitesFirst tokens) :
    Remembers tokens (throw fault : Parse α) := by
  constructor
  case ok =>
    intro p w p' _ hthrow
    cases hthrow
  case error =>
    intro p other p' _ hthrow
    cases hthrow
    exact h

theorem remembers_get : Remembers tokens (get : Parse Parser) := by
  constructor
  case ok =>
    intro p v p' hp h
    cases h
    exact hp
  case error =>
    intro p fault p' _ h
    cases h

theorem remembers_note (action : ParseAction) (t : Token) : Remembers tokens (note action t) := by
  constructor
  case ok =>
    intro p v p' hp h
    cases h
    exact hp
  case error =>
    intro p fault p' _ h
    cases h

/-! ### Single tokens -/

theorem citesFirst_of_consume {kinds : List TokenKind} {p p' : Parser} {fault : ParseFault}
    (h : consume kinds p = .error fault p') : fault.CitesFirst tokens := by
  rw [consume] at h
  split at h
  · cases h
    trivial
  · split at h
    · cases h
    · cases h
      trivial

theorem remembers_consume {kinds : List TokenKind} (hident : .ident ∉ kinds) :
    Remembers tokens (consume kinds) := by
  constructor
  case ok =>
    intro p t p' hp h
    obtain ⟨rest, hrest, hkind, rfl⟩ := consume_eq_ok.1 h
    exact hp.taking hrest fun heq => absurd (heq ▸ hkind) hident
  case error =>
    intro p fault p' _ h
    exact citesFirst_of_consume h

theorem remembers_operand : Remembers tokens operand := by
  constructor
  case ok =>
    intro p e p'' hp h
    obtain ⟨t, p', hconsume, _⟩ := bind_eq_ok.1 h
    rw [operand_of_consume hconsume] at h
    obtain ⟨rest, hrest, _, rfl⟩ := consume_eq_ok.1 hconsume
    split at h
    · next hnumber =>
      split at h
      · cases h
        exact hp.taking hrest fun hident => by rw [hnumber] at hident; cases hident
      · cases h
    · split at h
      · next hknown =>
        cases h
        exact hp.taking hrest fun _ => hknown
      · cases h
  case error =>
    intro p fault p'' hp h
    rcases bind_eq_error.1 h with herror | ⟨t, p', hconsume, _⟩
    · exact citesFirst_of_consume herror
    · rw [operand_of_consume hconsume] at h
      obtain ⟨rest, hrest, hkind, rfl⟩ := consume_eq_ok.1 hconsume
      split at h
      · split at h
        · cases h
        · cases h
          trivial
      · next hnumber =>
        have hident : t.kind = .ident := by simpa [hnumber] using hkind
        split at h
        · cases h
        · next hunknown =>
          cases h
          obtain ⟨used, rfl, hsymbols⟩ := hp
          have hnone : firstNaming used t.raw = none := by
            rw [← hsymbols, ← Option.not_isSome_iff_eq_none]
            exact hunknown
          rw [hrest]
          exact firstNaming_append_of_none hnone hident rest

/-- A new name is known by the token that declares it; of a known name the first token is
cited. -/
theorem remembers_newName : Remembers tokens newName := by
  constructor
  case ok =>
    intro p t p'' hp h
    obtain ⟨t', p', hconsume, _⟩ := bind_eq_ok.1 h
    rw [newName_of_consume hconsume] at h
    obtain ⟨rest, hrest, hkind, rfl⟩ := consume_eq_ok.1 hconsume
    have hident : t'.kind = .ident := List.mem_singleton.1 hkind
    split at h
    · cases h
    · next hnew =>
      cases h
      obtain ⟨used, rfl, hsymbols⟩ := hp
      refine ⟨used ++ [t], by simp [hrest, Parser.taking, Parser.declaring, Parser.noting],
        fun name => ?_⟩
      show (p.symbols.insert t.raw t).find? name = _
      rw [Bindings.find?_insert, firstNaming_concat, ← hsymbols]
      by_cases hname : name = t.raw
      · have hnone : p.symbols.find? t.raw = none := hnew
        rw [if_pos hname, hname, hnone, if_pos ⟨hident, rfl⟩, Option.none_or]
      · rw [if_neg hname, if_neg fun hsame => hname hsame.2.symm, Option.or_none]
  case error =>
    intro p fault p'' hp h
    rcases bind_eq_error.1 h with herror | ⟨t, p', hconsume, _⟩
    · exact citesFirst_of_consume herror
    · rw [newName_of_consume hconsume] at h
      obtain ⟨rest, _, _, rfl⟩ := consume_eq_ok.1 hconsume
      split at h
      · next first hfind =>
        cases h
        obtain ⟨used, rfl, hsymbols⟩ := hp
        have hfirst : p.symbols.find? t.raw = some first := hfind
        rw [hsymbols] at hfirst
        exact firstNaming_append_of_some hfirst _
      · cases h

/-! ### Expressions, statements and programs -/

theorem remembers_operation (left : Expr) : Remembers tokens (operation left) := by
  refine (remembers_consume (by decide)).bind fun op => remembers_operand.bind fun right => ?_
  cases BinOp.ofSymbol? op.raw with
  | some op => exact remembers_pure _
  | none => exact remembers_throw trivial

theorem remembers_expr : Remembers tokens expr := by
  refine remembers_operand.bind fun left => remembers_get.bind fun p => ?_
  split
  · exact remembers_operation left
  · exact remembers_pure left

theorem remembers_letStmt : Remembers tokens letStmt :=
  (remembers_consume (by decide)).bind fun _ => remembers_newName.bind fun _ =>
    (remembers_consume (by decide)).bind fun _ => remembers_expr.bind fun _ =>
      (remembers_consume (by decide)).bind fun _ => remembers_pure _

theorem remembers_printStmt : Remembers tokens printStmt :=
  (remembers_consume (by decide)).bind fun _ => (remembers_consume (by decide)).bind fun _ =>
    remembers_expr.bind fun _ => (remembers_consume (by decide)).bind fun _ =>
      (remembers_consume (by decide)).bind fun _ => remembers_pure _

theorem remembers_stmt : Remembers tokens stmt := by
  refine remembers_get.bind fun p => ?_
  split
  · exact remembers_throw trivial
  · refine (remembers_note ..).bind fun _ => ?_
    split
    · exact remembers_letStmt
    · exact remembers_printStmt
    · exact remembers_throw trivial

theorem remembers_stmts (limit : Nat) : Remembers tokens (stmts limit) := by
  induction limit with
  | zero => exact remembers_pure []
  | succ limit ih =>
    refine remembers_get.bind fun p => ?_
    split
    · exact remembers_pure []
    · exact remembers_stmt.bind fun first => ih.bind fun others => remembers_pure _

end Operations

/-- **A declaration that is cited is the first identifier of its name.** -/
theorem citesFirst_of_error {tokens : List Token} {fault : ParseFault} {p : Parser}
    (h : program (.ofTokens tokens) = .error fault p) : fault.CitesFirst tokens := by
  have hstart : KnowsFirst tokens (.ofTokens tokens) := ⟨[], rfl, fun _ => rfl⟩
  exact (remembers_stmts tokens.length).error hstart h

end Parse

end LetPrint
