import LetPrint.Bindings
import Mathlib.Data.Set.Function

/-! Changes that operations do not notice.

A change gives every state another one, and every error. An operation that is carried along
with it does in the changed state what it does in the state itself, with its result changed
likewise (`Change.Carries`). That has to hold in admitted states only, and leads to admitted
states again, so that operations can be put together. Tables of names change by new names
and new values; they are looked up and extended as before, if no two names in use become
one. -/
namespace LetPrint

/-- A change of errors and states. -/
structure Change (ε σ : Type) where
  error : ε → ε
  state : σ → σ

namespace Change
variable {ε σ α β γ δ : Type} (c : Change ε σ)

/-- What an operation came to, changed. -/
def result (g : α → β) : EStateM.Result ε σ α → EStateM.Result ε σ β
  | .ok a s => .ok (g a) (c.state s)
  | .error e s => .error (c.error e) (c.state s)

/-- From changed states an operation does what another one does from the states themselves,
if these are admitted. The other one stays among the admitted states, and its values satisfy
a condition. -/
structure Carries (admits : σ → Prop) (g : α → β) (R : α → Prop) (f' : EStateM ε σ β)
    (f : EStateM ε σ α) : Prop where
  eq : ∀ {s}, admits s → f' (c.state s) = c.result g (f s)
  ok : ∀ {s a s'}, admits s → f s = .ok a s' → admits s' ∧ R a

section Rules
variable {c} {admits : σ → Prop} {g : α → β} {h : γ → δ} {R : α → Prop} {T : γ → Prop}
variable {f' : EStateM ε σ β} {f : EStateM ε σ α} {k' : β → EStateM ε σ δ} {k : α → EStateM ε σ γ}

theorem Carries.bind (hf : c.Carries admits g R f' f)
    (hk : ∀ a, R a → c.Carries admits h T (k' (g a)) (k a)) :
    c.Carries admits h T (f' >>= k') (f >>= k) := by
  constructor
  case eq =>
    intro s hs
    have hfirst := hf.eq hs
    simp only [Bind.bind, EStateM.bind, hfirst]
    cases hrun : f s with
    | ok a between =>
      obtain ⟨hbetween, ha⟩ := hf.ok hs hrun
      exact (hk a ha).eq hbetween
    | error e failed => rfl
  case ok =>
    intro s b s' hs hrun
    simp only [Bind.bind, EStateM.bind] at hrun
    split at hrun
    · next a between hfirst =>
      obtain ⟨hbetween, ha⟩ := hf.ok hs hfirst
      exact (hk a ha).ok hbetween hrun
    · cases hrun

theorem carries_pure {a : α} {b : β} (hb : b = g a) (ha : R a) :
    c.Carries admits g R (pure b) (pure a) := by
  constructor
  case eq =>
    intro s _
    rw [hb]
    rfl
  case ok =>
    intro s a' s' hs hrun
    cases hrun
    exact ⟨hs, ha⟩

theorem carries_throw {e e' : ε} (he : e' = c.error e) :
    c.Carries admits g R (throw e') (throw e) := by
  constructor
  case eq =>
    intro s _
    rw [he]
    rfl
  case ok =>
    intro s a s' _ hrun
    cases hrun

theorem carries_get : c.Carries admits c.state admits get get := by
  constructor
  case eq => exact fun _ => rfl
  case ok =>
    intro s a s' hs hrun
    cases hrun
    exact ⟨hs, hs⟩

/-- A step without a result that can always be made. -/
theorem carries_modify {m m' : σ → σ} (hm : ∀ s, admits s → m' (c.state s) = c.state (m s))
    (hadmits : ∀ s, admits s → admits (m s)) :
    c.Carries admits id (fun _ => True) (modify m') (modify m) := by
  constructor
  case eq =>
    intro s hs
    show EStateM.Result.ok () (m' (c.state s)) = .ok () (c.state (m s))
    rw [hm s hs]
  case ok =>
    intro s a s' hs hrun
    cases hrun
    exact ⟨hadmits s hs, trivial⟩

end Rules

end Change

/-! ### Tables of names -/

namespace Bindings
variable {α β : Type}

/-- The table with other names and other values. -/
def mapEntries (f : String → String) (g : α → β) (b : Bindings α) : Bindings β :=
  ⟨b.entries.map fun entry => (f entry.1, g entry.2)⟩

variable {f : String → String} {names : Set String} {b : Bindings α} {name : String}

theorem mem_names_insert {value : α} {n : String} (h : n ∈ (b.insert name value).names) :
    n = name ∨ n ∈ b.names := by
  by_cases hname : name ∈ b.names
  · by_cases heq : n = name
    · exact .inl heq
    · refine .inr ?_
      rw [← contains_iff, contains, find?_insert, if_neg heq] at h
      exact contains_iff.1 h
  · rw [names_insert value hname] at h
    exact ((List.mem_append.1 h).imp_right List.mem_singleton.1).symm

variable (hf : Set.InjOn f names) (hb : ∀ n ∈ b.names, n ∈ names) (hname : name ∈ names)
include hf hb hname

theorem find?_mapEntries (g : α → β) :
    (b.mapEntries f g).find? (f name) = (b.find? name).map g := by
  obtain ⟨entries⟩ := b
  simp only [find?, mapEntries]
  induction entries with
  | nil => rfl
  | cons entry entries ih =>
    obtain ⟨hentry, hentries⟩ := List.forall_mem_cons.1 hb
    rw [List.map_cons, lookup_cons_eq_ite, lookup_cons_eq_ite, ih hentries]
    by_cases heq : name = entry.1
    · rw [if_pos heq, if_pos (congrArg f heq)]
      rfl
    · rw [if_neg heq, if_neg fun h => heq (hf hname hentry h)]

theorem contains_mapEntries (g : α → β) :
    (b.mapEntries f g).contains (f name) = b.contains name := by
  rw [contains, contains, find?_mapEntries hf hb hname, Option.isSome_map]

theorem insert_mapEntries (g : α → β) (value : α) :
    (b.mapEntries f g).insert (f name) (g value) = (b.insert name value).mapEntries f g := by
  obtain ⟨entries⟩ := b
  simp only [insert, mapEntries, mk.injEq]
  induction entries with
  | nil => rfl
  | cons entry entries ih =>
    obtain ⟨hentry, hentries⟩ := List.forall_mem_cons.1 hb
    rw [List.map_cons, insertEntry, insertEntry, ih hentries]
    by_cases heq : entry.1 = name
    · rw [if_pos heq, if_pos (congrArg f heq)]
      rfl
    · rw [if_neg heq, if_neg fun h => heq (hf hentry hname h)]
      rfl

end Bindings

end LetPrint
