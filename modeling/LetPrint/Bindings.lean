/-! Names bound to values, in the order in which they were first bound.

The symbols of a program and the variables of a run are both such tables. A
name is bound once at most: `insert` gives a new name its place at the end and
leaves a known name where it stands. -/
namespace LetPrint

/-- A table of names and their values. -/
structure Bindings (α : Type) where
  entries : List (String × α)
deriving DecidableEq, Repr

namespace Bindings
variable {α : Type}

def empty : Bindings α := ⟨[]⟩

instance : EmptyCollection (Bindings α) := ⟨empty⟩
instance : Inhabited (Bindings α) := ⟨empty⟩

/-- The value of a name, if it is bound. -/
def find? (b : Bindings α) (name : String) : Option α :=
  b.entries.lookup name

/-- Whether a name is bound. -/
def contains (b : Bindings α) (name : String) : Bool :=
  (b.find? name).isSome

/-- The bound names, the first bound first. -/
def names (b : Bindings α) : List String :=
  b.entries.map Prod.fst

/-- Entries with one name given a value: in its place if it is there, else at the end. -/
def insertEntry (name : String) (value : α) : List (String × α) → List (String × α)
  | [] => [(name, value)]
  | (n, v) :: rest =>
    if n = name then (name, value) :: rest else (n, v) :: insertEntry name value rest

def insert (b : Bindings α) (name : String) (value : α) : Bindings α :=
  ⟨insertEntry name value b.entries⟩

/-! ### Names -/

theorem find?_eq_none_iff {b : Bindings α} {name : String} : b.find? name = none ↔ name ∉ b.names := by
  rw [find?, List.lookup_eq_none_iff, names]
  simp only [List.mem_map, not_exists, not_and, bne_iff_ne, ne_eq]
  constructor
  · intro h entry hentry heq
    exact h entry hentry heq.symm
  · intro h entry hentry heq
    exact h entry hentry heq.symm

theorem contains_iff {b : Bindings α} {name : String} : b.contains name = true ↔ name ∈ b.names := by
  rw [contains, Option.isSome_iff_ne_none, Ne, find?_eq_none_iff, Decidable.not_not]

/-- A new entry comes last. -/
theorem entries_insert {b : Bindings α} {name : String} (value : α) (h : name ∉ b.names) :
    (b.insert name value).entries = b.entries ++ [(name, value)] := by
  obtain ⟨entries⟩ := b
  simp only [insert, names] at h ⊢
  induction entries with
  | nil => rfl
  | cons entry entries ih =>
    obtain ⟨n, v⟩ := entry
    simp only [List.map_cons, List.mem_cons, not_or] at h
    rw [insertEntry, if_neg (Ne.symm h.1), ih h.2, List.cons_append]

/-- A new name comes last. -/
theorem names_insert {b : Bindings α} {name : String} (value : α) (h : name ∉ b.names) :
    (b.insert name value).names = b.names ++ [name] := by
  rw [names, entries_insert value h, List.map_append, names, List.map_singleton]

theorem lookup_cons_eq_ite (other name : String) (value : α) (entries : List (String × α)) :
    ((name, value) :: entries).lookup other =
      if other = name then some value else entries.lookup other := by
  rw [List.lookup_cons]
  by_cases heq : other = name
  · rw [if_pos heq, heq, beq_self_eq_true]
  · rw [if_neg heq, beq_false_of_ne heq]

/-- A name has the value that it was given last. -/
theorem find?_insert (b : Bindings α) (name : String) (value : α) (other : String) :
    (b.insert name value).find? other = if other = name then some value else b.find? other := by
  obtain ⟨entries⟩ := b
  simp only [insert, find?]
  induction entries with
  | nil => rw [insertEntry, lookup_cons_eq_ite, List.lookup_nil]
  | cons entry entries ih =>
    obtain ⟨n, v⟩ := entry
    by_cases hname : n = name
    · rw [insertEntry, if_pos hname, lookup_cons_eq_ite, lookup_cons_eq_ite, hname]
      by_cases heq : other = name
      · rw [if_pos heq, if_pos heq]
      · rw [if_neg heq, if_neg heq, if_neg heq]
    · rw [insertEntry, if_neg hname, lookup_cons_eq_ite, lookup_cons_eq_ite, ih]
      by_cases heq : other = n
      · have hother : other ≠ name := heq ▸ hname
        rw [if_pos heq, if_pos heq, if_neg hother]
      · rw [if_neg heq, if_neg heq]

end Bindings

end LetPrint
