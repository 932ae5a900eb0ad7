import LetPrint.Parser.Grammar
import LetPrint.Proofs.Derivation
import LetPrint.Proofs.Progress

/-! The parser, followed on its way through the tokens.

`Follows` ties an operation of the parser to progress: what it takes is what progress
allows, what it returns stands in a relation to what it took, and where it fails progress
stops too, for a reason that the fault tells (`Stops`). Such facts are put together the
way operations are (`Follows.bind`). -/
namespace LetPrint

/-! ### Where progress stops -/

/-- Progress stops at the next token or at the end of the tokens, a fault says why, and
some tokens are taken all the same. -/
inductive Stops (q : Progress) : List Token → ParseFault → Nat → Prop
  | ended (kinds : List TokenKind) : q.due ≠ [] → Stops q [] (.unexpected kinds none) 0
  | misfit {t : Token} {rest : List Token} (kinds : List TokenKind) :
    nextDue q.due t.kind = none → Stops q (t :: rest) (.unexpected kinds (some t)) 0
  | redeclared {t : Token} {rest : List Token} (first : Token) : t.kind = .ident →
    nextDue q.due t.kind ≠ none → q.due.head? = some .name → t.raw ∈ q.declared →
      Stops q (t :: rest) (.redeclared t first) 1
  | undeclared {t : Token} {rest : List Token} : t.kind = .ident →
    nextDue q.due t.kind ≠ none → q.due.head? ≠ some .name → t.raw ∉ q.declared →
      Stops q (t :: rest) (.undeclared t) 1

theorem Stops.take?_eq_none {q : Progress} {t : Token} {rest : List Token} {fault : ParseFault}
    {taken : Nat} (h : Stops q (t :: rest) fault taken) : q.take? t = none := by
  cases h with
  | misfit _ hnext => rw [Progress.take?, hnext, Option.bind_none]
  | redeclared _ hident _ hname hmem =>
    have : q.declaredAfter? t = none := by
      rw [Progress.declaredAfter?, if_pos hident, if_pos hname, if_pos hmem]
    simp [Progress.take?, this]
  | undeclared hident _ hname hmem =>
    have : q.declaredAfter? t = none := by
      rw [Progress.declaredAfter?, if_pos hident, if_neg hname, if_neg hmem]
    simp [Progress.take?, this]

/-- Where progress stops, no program ends. -/
theorem Stops.due_ne_nil {q q' : Progress} {left : List Token} {fault : ParseFault} {taken : Nat}
    (h : Stops q left fault taken) (hrun : q.run left = some q') : q'.due ≠ [] := by
  cases left with
  | nil =>
    rw [Progress.run] at hrun
    cases hrun
    cases h with
    | ended _ hdue => exact hdue
  | cons t rest =>
    rw [Progress.run, h.take?_eq_none] at hrun
    cases hrun

/-! ### Following -/

/-- The parser knows the names that are declared. -/
def Tracks (p : Parser) (q : Progress) : Prop :=
  p.symbols.names = q.declared

/-- Parser and progress have taken some tokens. -/
structure Advances (p : Parser) (q : Progress) (used : List Token) (p' : Parser)
    (q' : Progress) : Prop where
  rest : p.rest = used ++ p'.rest
  index : p'.index = p.index + used.length
  run : q.run used = some q'
  tracks : Tracks p' q'

theorem Advances.refl {p : Parser} {q : Progress} (h : Tracks p q) : Advances p q [] p q :=
  ⟨rfl, by simp, rfl, h⟩

theorem Advances.trans {p p' p'' : Parser} {q q' q'' : Progress} {used used' : List Token}
    (h : Advances p q used p' q') (h' : Advances p' q' used' p'' q'') :
    Advances p q (used ++ used') p'' q'' := by
  refine ⟨?_, ?_, ?_, h'.tracks⟩
  · rw [h.rest, h'.rest, List.append_assoc]
  · rw [h'.index, h.index, List.length_append, Int.natCast_add, Int.add_assoc]
  · rw [Progress.run_append, h.run, Option.bind_some, h'.run]

theorem Advances.fitting {p p' : Parser} {q q' : Progress} {used : List Token}
    (h : Advances p q used p' q') (hfits : Fitting p.rest) : Fitting used ∧ Fitting p'.rest := by
  rw [h.rest, fitting_append] at hfits
  exact hfits

/-- The parser fails where progress stops. -/
def Halts (p : Parser) (q : Progress) (fault : ParseFault) (p' : Parser) : Prop :=
  ∃ used left q' taken, p.rest = used ++ left ∧ q.run used = some q' ∧
    p'.index = p.index + used.length + (taken : Nat) ∧ Stops q' left fault taken

theorem Halts.after {p p' p'' : Parser} {q q' : Progress} {used : List Token} {fault : ParseFault}
    (h : Advances p q used p' q') (h' : Halts p' q' fault p'') : Halts p q fault p'' := by
  obtain ⟨used', left, q'', taken, hrest, hrun, hindex, hstops⟩ := h'
  refine ⟨used ++ used', left, q'', taken, ?_, ?_, ?_, hstops⟩
  · rw [h.rest, hrest, List.append_assoc]
  · rw [Progress.run_append, h.run, Option.bind_some, hrun]
  · rw [hindex, h.index, List.length_append, Int.natCast_add, Int.add_assoc p.index]

/-- An operation of the parser follows progress from one situation to another, and its
result stands in a relation to the tokens it took. Where it fails, tokens that fit their
kinds are no reason. -/
structure Follows {α : Type} (pre : Parser → Progress → Prop) (f : Parse α)
    (post : Parser → Progress → Prop) (R : List Token → α → Prop) : Prop where
  ok : ∀ {p q v p'}, Tracks p q → pre p q → f p = .ok v p' →
    ∃ used q', Advances p q used p' q' ∧ post p' q' ∧ R used v
  error : ∀ {p q fault p'}, Tracks p q → pre p q → f p = .error fault p' → Fitting p.rest →
    Halts p q fault p'

section Sequences
variable {α β : Type} {p p' : Parser} {f : Parse α} {g : α → Parse β}

theorem Parse.bind_eq_ok {w : β} :
    (f >>= g) p = .ok w p' ↔ ∃ v between, f p = .ok v between ∧ g v between = .ok w p' := by
  show EStateM.bind f g p = _ ↔ _
  rw [EStateM.bind]
  cases f p <;> simp

theorem Parse.bind_eq_error {fault : ParseFault} :
    (f >>= g) p = .error fault p' ↔
      f p = .error fault p' ∨ ∃ v between, f p = .ok v between ∧ g v between = .error fault p' := by
  show EStateM.bind f g p = _ ↔ _
  rw [EStateM.bind]
  cases f p <;> simp

variable {pre mid post : Parser → Progress → Prop} {R : List Token → α → Prop}

theorem Follows.weaken {pre' : Parser → Progress → Prop} (h : Follows pre f post R)
    (hpre : ∀ p q, pre' p q → pre p q) : Follows pre' f post R :=
  ⟨fun ht hp hf => h.ok ht (hpre _ _ hp) hf, fun ht hp hf => h.error ht (hpre _ _ hp) hf⟩

theorem Follows.imp {R' : List Token → α → Prop} (h : Follows pre f post R)
    (hR : ∀ used v, R used v → R' used v) : Follows pre f post R' := by
  refine ⟨fun ht hp hf => ?_, h.error⟩
  obtain ⟨used, q', hadv, hpost, hv⟩ := h.ok ht hp hf
  exact ⟨used, q', hadv, hpost, hR used _ hv⟩

theorem Follows.pure (v : α) : Follows pre (pure v) pre fun used w => used = [] ∧ w = v := by
  constructor
  case ok =>
    intro p q w p' ht hp hf
    cases hf
    exact ⟨[], q, .refl ht, hp, rfl, rfl⟩
  case error =>
    intro p q fault p' _ _ hf
    cases hf

theorem Follows.bind {S : α → List Token → β → Prop} (hf : Follows pre f mid R)
    (hg : ∀ v, Follows mid (g v) post (S v)) :
    Follows pre (f >>= g) post fun used w =>
      ∃ v front back, used = front ++ back ∧ R front v ∧ S v back w := by
  constructor
  case ok =>
    intro p q w p'' ht hp h
    obtain ⟨v, p', hv, hw⟩ := Parse.bind_eq_ok.1 h
    obtain ⟨front, q', hfront, hmid, hR⟩ := hf.ok ht hp hv
    obtain ⟨back, q'', hback, hpost, hS⟩ := (hg v).ok hfront.tracks hmid hw
    exact ⟨front ++ back, q'', hfront.trans hback, hpost, v, front, back, rfl, hR, hS⟩
  case error =>
    intro p q fault p'' ht hp h hfits
    rcases Parse.bind_eq_error.1 h with herror | ⟨v, p', hv, herror⟩
    · exact hf.error ht hp herror hfits
    · obtain ⟨front, q', hfront, hmid, _⟩ := hf.ok ht hp hv
      exact .after hfront ((hg v).error hfront.tracks hmid herror (hfront.fitting hfits).2)

end Sequences

end LetPrint
