import LetPrint.Proofs.Following

/-! The parser on single tokens.

Where the next token can be one of some kinds (`Offers`), the parser takes it as progress
does or fails where progress stops. A name is the only token that can be of the right kind
and still be refused: a let statement must give a new one (`newName_follows`), an operand
a declared one (`operand_follows`). -/
namespace LetPrint.Parse

/-- These parts are due. -/
def Due (due : List Part) (_ : Parser) (q : Progress) : Prop :=
  q.due = due

/-- These parts are due, or an operation is in front of them that does not come. -/
def Ready (due : List Part) (p : Parser) (q : Progress) : Prop :=
  q.due = due ∨ q.due = .more :: due ∧ p.nextIs .operator = false

/-- The next token can be taken exactly if it has one of the kinds, and leaves some parts
due. -/
structure Offers (kinds : List TokenKind) (due : List Part) (p : Parser) (q : Progress) : Prop where
  nonempty : p.rest = [] → q.due ≠ []
  next : ∀ t rest, p.rest = t :: rest →
    nextDue q.due t.kind = if t.kind ∈ kinds then some due else none

theorem nextIs_of_rest {p : Parser} {t : Token} {rest : List Token} (h : p.rest = t :: rest)
    (kind : TokenKind) : p.nextIs kind = decide (t.kind = kind) := by
  rw [Parser.nextIs, Parser.peek, h, List.head?_cons]

theorem offers_token {kind : TokenKind} {due : List Part} {p : Parser} {q : Progress}
    (h : Ready (.token kind :: due) p q) : Offers [kind] due p q := by
  rcases h with hdue | ⟨hdue, hop⟩
  · refine ⟨fun _ => by simp [hdue], fun t rest hrest => ?_⟩
    rw [hdue, nextDue]
    simp only [List.mem_singleton]
  · refine ⟨fun _ => by simp [hdue], fun t rest hrest => ?_⟩
    rw [nextIs_of_rest hrest, decide_eq_false_iff_not] at hop
    rw [hdue, nextDue, if_neg hop, nextDue]
    simp only [List.mem_singleton]

/-! ### Single tokens -/

section Consume
variable {kinds : List TokenKind} {due : List Part} {p p' : Parser} {q : Progress}

theorem consume_eq_ok {t : Token} :
    consume kinds p = .ok t p' ↔
      ∃ rest, p.rest = t :: rest ∧ t.kind ∈ kinds ∧ p' = (p.noting .consume t).taking rest := by
  rw [consume]
  cases p.rest with
  | nil => simp
  | cons first rest =>
    dsimp only
    by_cases hkind : first.kind ∈ kinds
    · rw [if_pos hkind]
      constructor
      · intro h
        cases h
        exact ⟨rest, rfl, hkind, rfl⟩
      · intro h
        obtain ⟨rest', heq, _, rfl⟩ := h
        cases heq
        rfl
    · rw [if_neg hkind]
      constructor
      · intro h
        cases h
      · intro h
        obtain ⟨rest', heq, hmem, _⟩ := h
        cases heq
        exact absurd hmem hkind

theorem consume_halts {fault : ParseFault} (hoffers : Offers kinds due p q)
    (h : consume kinds p = .error fault p') : Halts p q fault p' := by
  rw [consume] at h
  cases hrest : p.rest with
  | nil =>
    rw [hrest] at h
    cases h
    exact ⟨[], [], q, 0, hrest, rfl, by simp, .ended kinds (hoffers.nonempty hrest)⟩
  | cons t rest =>
    rw [hrest] at h
    dsimp only at h
    by_cases hkind : t.kind ∈ kinds
    · rw [if_pos hkind] at h
      cases h
    · rw [if_neg hkind] at h
      cases h
      have hnext := hoffers.next t rest hrest
      rw [if_neg hkind] at hnext
      exact ⟨[], t :: rest, q, 0, hrest, rfl, by simp, .misfit kinds hnext⟩

/-- A token that is no name moves only what is due. -/
theorem consume_advances {t : Token} (hoffers : Offers kinds due p q) (ht : Tracks p q)
    (hident : t.kind ≠ .ident) (h : consume kinds p = .ok t p') :
    Advances p q [t] p' ⟨due, q.declared⟩ := by
  obtain ⟨rest, hrest, hkind, rfl⟩ := consume_eq_ok.1 h
  have hnext := hoffers.next t rest hrest
  rw [if_pos hkind] at hnext
  refine ⟨hrest, rfl, ?_, ht⟩
  rw [Progress.run_singleton]
  exact Progress.take?_eq_some.2 ⟨hnext, by rw [Progress.declaredAfter?, if_neg hident]⟩

theorem consume_follows (hident : .ident ∉ kinds) :
    Follows (Offers kinds due) (consume kinds) (Due due)
      fun used t => used = [t] ∧ t.kind ∈ kinds := by
  constructor
  case ok =>
    intro p q t p' ht hoffers h
    obtain ⟨_, _, hkind, _⟩ := consume_eq_ok.1 h
    have hne : t.kind ≠ .ident := fun heq => hident (heq ▸ hkind)
    exact ⟨[t], ⟨due, q.declared⟩, consume_advances hoffers ht hne h, rfl, rfl, hkind⟩
  case error =>
    intro p q fault p' _ hoffers h _
    exact consume_halts hoffers h

theorem consume_token_follows {kind : TokenKind} (hident : kind ≠ .ident) :
    Follows (Ready (.token kind :: due)) (consume [kind]) (Due due)
      fun used t => used = [t] ∧ t.kind = kind := by
  have hnot : TokenKind.ident ∉ [kind] := fun h => hident (List.mem_singleton.1 h).symm
  refine ((consume_follows hnot).weaken fun p q => offers_token).imp ?_
  intro used t htoken
  obtain ⟨hused, hkind⟩ := htoken
  exact ⟨hused, List.mem_singleton.1 hkind⟩

end Consume

/-! ### Names and operands -/

theorem newName_of_consume {p p' : Parser} {t : Token} (h : consume [.ident] p = .ok t p') :
    newName p =
      match p'.symbols.find? t.raw with
      | some first => .error (.redeclared t first) p'
      | none => .ok t ((p'.declaring t).noting .declare t) := by
  have hget : (EStateM.get : Parse Parser) p' = .ok p' p' := rfl
  simp only [newName, bind, EStateM.bind, h, get, getThe, MonadStateOf.get, hget]
  cases hfind : p'.symbols.find? t.raw with
  | some first => rfl
  | none => simp [declare, note, Bindings.contains, hfind, pure, EStateM.pure, EStateM.bind]

theorem offers_name {due : List Part} {p : Parser} {q : Progress} (h : Due (.name :: due) p q) :
    Offers [.ident] due p q := by
  have hdue : q.due = .name :: due := h
  refine ⟨fun _ => by simp [hdue], fun t rest _ => ?_⟩
  rw [hdue, nextDue]
  simp only [List.mem_singleton]

theorem newName_follows (due : List Part) :
    Follows (Due (.name :: due)) newName (Due due) fun used t => used = [t] ∧ t.kind = .ident := by
  constructor
  case ok =>
    intro p q t p'' ht hdue h
    obtain ⟨t', p', hconsume, _⟩ := bind_eq_ok.1 h
    rw [newName_of_consume hconsume] at h
    obtain ⟨rest, hrest, hkind, rfl⟩ := consume_eq_ok.1 hconsume
    have hident : t'.kind = .ident := List.mem_singleton.1 hkind
    split at h
    · cases h
    · next hfind =>
      cases h
      have hnew : t.raw ∉ p.symbols.names := Bindings.find?_eq_none_iff.1 hfind
      refine ⟨[t], ⟨due, q.declared ++ [t.raw]⟩, ⟨hrest, rfl, ?_, ?_⟩, rfl, rfl, hident⟩
      · rw [Progress.run_singleton]
        exact Progress.take?_name hdue hident (ht ▸ hnew)
      · show (p.symbols.insert t.raw t).names = q.declared ++ [t.raw]
        rw [Bindings.names_insert t hnew, ht]
  case error =>
    intro p q fault p'' ht hdue h _
    rcases bind_eq_error.1 h with herror | ⟨t, p', hconsume, _⟩
    · exact consume_halts (offers_name hdue) herror
    · rw [newName_of_consume hconsume] at h
      obtain ⟨rest, hrest, hkind, rfl⟩ := consume_eq_ok.1 hconsume
      have hident : t.kind = .ident := List.mem_singleton.1 hkind
      split at h
      · next first hfind =>
        cases h
        have hknown : t.raw ∈ p.symbols.names := by
          by_contra hnew
          rw [← Bindings.find?_eq_none_iff] at hnew
          exact absurd (hfind.symm.trans hnew) (Option.some_ne_none first)
        have hnext := (offers_name hdue).next t rest hrest
        rw [if_pos hkind] at hnext
        have hhead : q.due.head? = some .name := by rw [show q.due = _ from hdue, List.head?_cons]
        rw [ht] at hknown
        refine ⟨[], t :: rest, q, 1, hrest, rfl, by simp [Parser.taking, Parser.noting], ?_⟩
        exact .redeclared first hident (by simp [hnext]) hhead hknown
      · cases h

theorem offers_operand {due : List Part} {p : Parser} {q : Progress}
    (h : Due (.operand :: due) p q) : Offers [.number, .ident] due p q := by
  have hdue : q.due = .operand :: due := h
  refine ⟨fun _ => by simp [hdue], fun t rest _ => ?_⟩
  rw [hdue, nextDue]
  simp only [List.mem_cons, List.not_mem_nil, or_false]

theorem operand_of_consume {p p' : Parser} {t : Token}
    (h : consume [.number, .ident] p = .ok t p') :
    operand p =
      if t.kind = .number then
        match Text.Numeral.read t.raw with
        | some value => .ok (.literal value t.span) p'
        | none => .error (.badNumeral t.raw) p'
      else if p'.symbols.contains t.raw then .ok (.var t t.span) p'
      else .error (.undeclared t) p' := by
  simp only [operand, bind, EStateM.bind, h]
  by_cases hnumber : t.kind = .number
  · rw [if_pos hnumber, if_pos hnumber]
    cases Text.Numeral.read t.raw <;> rfl
  · rw [if_neg hnumber, if_neg hnumber]
    show (if p'.symbols.contains t.raw then pure (.var t t.span)
      else throw (.undeclared t) : Parse Expr) p' = _
    split <;> rfl

/-- What a number that fits its kind is read as. -/
theorem read_of_fits {t : Token} (hfits : t.Fits) (hkind : t.kind = .number) :
    Text.Numeral.read t.raw = some (Int.ofNat (Nat.ofDigitChars 10 t.raw.toList 0)) := by
  rcases hfits with hident | hspells
  · rw [hkind] at hident
    cases hident
  · rw [hkind] at hspells
    exact Text.Numeral.read_digits hspells

theorem operand_follows (due : List Part) :
    Follows (Due (.operand :: due)) operand (Due due) fun used e =>
      Fitting used → OperandOf used e := by
  constructor
  case ok =>
    intro p q e p'' ht hdue h
    obtain ⟨t, p', hconsume, _⟩ := bind_eq_ok.1 h
    rw [operand_of_consume hconsume] at h
    have hoffers := offers_operand hdue
    by_cases hnumber : t.kind = .number
    · rw [if_pos hnumber] at h
      have hadv := consume_advances hoffers ht (by simp [hnumber]) hconsume
      split at h
      · next value hread =>
        cases h
        refine ⟨[t], _, hadv, rfl, fun hfits => ?_⟩
        have hvalue := read_of_fits (hfits t (List.mem_singleton_self t)) hnumber
        rw [hread, Option.some.injEq] at hvalue
        rw [hvalue]
        exact .literal hnumber
      · cases h
    · rw [if_neg hnumber] at h
      obtain ⟨rest, hrest, hkind, rfl⟩ := consume_eq_ok.1 hconsume
      have hident : t.kind = .ident := by simpa [hnumber] using hkind
      split at h
      · next hknown =>
        cases h
        have hmem : t.raw ∈ p.symbols.names := Bindings.contains_iff.1 hknown
        refine ⟨[t], ⟨due, q.declared⟩, ⟨hrest, rfl, ?_, ht⟩, rfl, fun _ => .var hident⟩
        rw [Progress.run_singleton]
        exact Progress.take?_operand hdue hident (ht ▸ hmem)
      · cases h
  case error =>
    intro p q fault p'' ht hdue h hfits
    have hoffers := offers_operand hdue
    rcases bind_eq_error.1 h with herror | ⟨t, p', hconsume, _⟩
    · exact consume_halts hoffers herror
    · rw [operand_of_consume hconsume] at h
      obtain ⟨rest, hrest, hkind, rfl⟩ := consume_eq_ok.1 hconsume
      rw [hrest, fitting_cons] at hfits
      by_cases hnumber : t.kind = .number
      · rw [if_pos hnumber, read_of_fits hfits.1 hnumber] at h
        cases h
      · rw [if_neg hnumber] at h
        have hident : t.kind = .ident := by simpa [hnumber] using hkind
        split at h
        · cases h
        · next hunknown =>
          cases h
          have hmem : t.raw ∉ p.symbols.names := fun hmem =>
            hunknown (Bindings.contains_iff.2 hmem)
          have hnext := hoffers.next t rest hrest
          rw [if_pos hkind] at hnext
          have hhead : q.due.head? ≠ some .name := by simp [show q.due = _ from hdue]
          rw [ht] at hmem
          refine ⟨[], t :: rest, q, 1, hrest, rfl, by simp [Parser.taking, Parser.noting], ?_⟩
          exact .undeclared hident (by simp [hnext]) hhead hmem

end LetPrint.Parse
