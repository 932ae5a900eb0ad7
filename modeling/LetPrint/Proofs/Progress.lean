import LetPrint.Proofs.Prediction

/-! How far a list of tokens gets.

Progress is what is due and which names are declared. One token takes it a step further
(`take?`) or cannot come next. A list of tokens gets through from the start exactly if
its kinds do and its names are well scoped (`run_start_iff`); wherever it gets to, some
tokens take it from there to the end of a program (`completable_of_ordered`). -/
namespace LetPrint

/-- Where a reader of tokens stands. -/
structure Progress where
  due : List Part
  declared : List String
deriving DecidableEq, Repr

namespace Progress

def start : Progress :=
  ⟨[], []⟩

/-- The names that are declared after one more token, if the scopes let it come next. -/
def declaredAfter? (q : Progress) (t : Token) : Option (List String) :=
  if t.kind = .ident then
    if q.due.head? = some .name then
      if t.raw ∈ q.declared then none else some (q.declared ++ [t.raw])
    else if t.raw ∈ q.declared then some q.declared else none
  else some q.declared

/-- One token further, if it can come next. -/
def take? (q : Progress) (t : Token) : Option Progress :=
  (nextDue q.due t.kind).bind fun due =>
    (q.declaredAfter? t).map fun declared => ⟨due, declared⟩

def run (q : Progress) : List Token → Option Progress
  | [] => some q
  | t :: rest => (q.take? t).bind fun q' => q'.run rest

theorem run_append (q : Progress) (front back : List Token) :
    q.run (front ++ back) = (q.run front).bind fun q' => q'.run back := by
  induction front generalizing q with
  | nil => rfl
  | cons t front ih => simp only [List.cons_append, run, Option.bind_assoc, ih]

theorem run_singleton (q : Progress) (t : Token) : q.run [t] = q.take? t := by
  simp only [run, Option.bind_fun_some]

theorem take?_eq_some {q q' : Progress} {t : Token} :
    q.take? t = some q' ↔
      nextDue q.due t.kind = some q'.due ∧ q.declaredAfter? t = some q'.declared := by
  rw [take?, Option.bind_eq_some_iff]
  constructor
  · intro h
    obtain ⟨due, hdue, hmap⟩ := h
    obtain ⟨declared, hdeclared, rfl⟩ := Option.map_eq_some_iff.1 hmap
    exact ⟨hdue, hdeclared⟩
  · intro h
    obtain ⟨hdue, hdeclared⟩ := h
    exact ⟨q'.due, hdue, by rw [hdeclared, Option.map_some]⟩

/-- A new name is declared. -/
theorem take?_name {q : Progress} {t : Token} {due : List Part} (hdue : q.due = .name :: due)
    (hident : t.kind = .ident) (hnew : t.raw ∉ q.declared) :
    q.take? t = some ⟨due, q.declared ++ [t.raw]⟩ := by
  refine take?_eq_some.2 ⟨?_, ?_⟩
  · rw [hdue, nextDue, if_pos hident]
  · rw [declaredAfter?, if_pos hident, hdue, List.head?_cons, if_pos rfl, if_neg hnew]

/-- A declared name is an operand. -/
theorem take?_operand {q : Progress} {t : Token} {due : List Part} (hdue : q.due = .operand :: due)
    (hident : t.kind = .ident) (hknown : t.raw ∈ q.declared) :
    q.take? t = some ⟨due, q.declared⟩ := by
  have hhead : (Part.operand :: due).head? ≠ some .name := by simp
  refine take?_eq_some.2 ⟨?_, ?_⟩
  · rw [hdue, nextDue, if_pos (.inr hident)]
  · rw [declaredAfter?, if_pos hident, hdue, if_neg hhead, if_pos hknown]

/-! ### Runs from the start -/

/-- Progress after some tokens: a name is to be declared next if the last is `let`, and the
declared names are those of the tokens. -/
structure After (tokens : List Token) (q : Progress) : Prop where
  ordered : Ordered q.due
  naming : q.due.head? = some .name ↔ AfterLet tokens
  declared : q.declared = letNames tokens

theorem After.declaredAfter?_eq_some {tokens : List Token} {q : Progress} (h : After tokens q)
    {t : Token} {names : List String} :
    q.declaredAfter? t = some names ↔
      InScope tokens t ∧ names = letNames (tokens ++ [t]) := by
  rw [declaredAfter?, InScope, letNames_append_singleton, h.declared]
  by_cases hident : t.kind = .ident
  · by_cases hafter : AfterLet tokens
    · by_cases hmem : t.raw ∈ letNames tokens
      · simp [hident, h.naming, hafter, hmem]
      · simp [hident, h.naming, hafter, hmem, eq_comm]
    · by_cases hmem : t.raw ∈ letNames tokens
      · simp [hident, h.naming, hafter, hmem, eq_comm]
      · simp [hident, h.naming, hafter, hmem]
  · simp [hident, eq_comm]

theorem after_of_dueAfter {tokens : List Token} {q : Progress}
    (hdue : dueAfter [] (tokens.map Token.kind) = some q.due)
    (hdeclared : q.declared = letNames tokens) : After tokens q := by
  obtain ⟨hordered, hnaming⟩ := ordered_dueAfter hdue
  rw [List.getLast?_map] at hnaming
  exact ⟨hordered, hnaming, hdeclared⟩

/-- **A run from the start** follows the grammar and the scopes, and nothing else. The
induction adds tokens at the end, where both are checked. -/
theorem run_start_iff {tokens : List Token} {q : Progress} :
    start.run tokens = some q ↔
      dueAfter [] (tokens.map Token.kind) = some q.due ∧ WellScoped tokens ∧
        q.declared = letNames tokens := by
  induction tokens using List.reverseRecOn generalizing q with
  | nil =>
    rw [run, List.map_nil, dueAfter, Option.some.injEq, Option.some.injEq]
    constructor
    · intro h
      subst h
      exact ⟨rfl, wellScoped_nil, rfl⟩
    · intro h
      obtain ⟨hdue, _, hdeclared⟩ := h
      obtain ⟨due, declared⟩ := q
      simp only [letNames] at hdue hdeclared
      rw [hdeclared, ← hdue]
      rfl
  | append_singleton tokens t ih =>
    rw [run_append, Option.bind_eq_some_iff, List.map_append, dueAfter_append,
      Option.bind_eq_some_iff, wellScoped_append_singleton]
    simp only [run_singleton, List.map_cons, List.map_nil, dueAfter, Option.bind_fun_some]
    constructor
    · intro h
      obtain ⟨before, hbefore, htake⟩ := h
      obtain ⟨hdue, hscoped, hdeclared⟩ := ih.1 hbefore
      obtain ⟨hnext, hnames⟩ := take?_eq_some.1 htake
      obtain ⟨hscope, heq⟩ := (after_of_dueAfter hdue hdeclared).declaredAfter?_eq_some.1 hnames
      exact ⟨⟨before.due, hdue, hnext⟩, ⟨hscoped, hscope⟩, heq⟩
    · intro h
      obtain ⟨⟨due, hdue, hnext⟩, ⟨hscoped, hscope⟩, heq⟩ := h
      have hafter : After tokens ⟨due, letNames tokens⟩ := after_of_dueAfter hdue rfl
      refine ⟨⟨due, letNames tokens⟩, ih.2 ⟨hdue, hscoped, rfl⟩, take?_eq_some.2 ⟨hnext, ?_⟩⟩
      exact hafter.declaredAfter?_eq_some.2 ⟨hscope, heq⟩

theorem after_of_run {tokens : List Token} {q : Progress} (h : start.run tokens = some q) :
    After tokens q := by
  obtain ⟨hdue, _, hdeclared⟩ := run_start_iff.1 h
  exact after_of_dueAfter hdue hdeclared

end Progress

/-! ### Tokens for what is due -/

/-- A text of each kind. -/
def TokenKind.sample : TokenKind → String
  | letWord => "let"
  | printWord => "print"
  | ident => "_"
  | number => "0"
  | equals => "="
  | operator => "+"
  | semicolon => ";"
  | openParen => "("
  | closeParen => ")"

/-- The length of all names together. -/
def totalLength : List String → Nat
  | [] => 0
  | name :: names => name.length + totalLength names

/-- A name that is longer than all of the given ones together. -/
def freshName (names : List String) : String :=
  String.ofList (List.replicate (totalLength names + 1) '_')

/-- A token made for a text. -/
def Token.made (kind : TokenKind) (raw : String) : Token :=
  ⟨kind, raw, ⟨0, 0⟩⟩

/-- Tokens the lexer could have made. -/
def Spelled (tokens : List Token) : Prop :=
  ∀ t ∈ tokens, t.kind.Spells t.raw.toList

theorem Spelled.fitting {tokens : List Token} (h : Spelled tokens) : Fitting tokens :=
  fun t ht => .inr (h t ht)

theorem spelled_cons {t : Token} {tokens : List Token} :
    Spelled (t :: tokens) ↔ t.kind.Spells t.raw.toList ∧ Spelled tokens :=
  List.forall_mem_cons

theorem spells_sample (kind : TokenKind) : kind.Spells kind.sample.toList := by
  cases kind with
  | ident => exact ⟨⟨'_', [], rfl, by decide, List.all_eq_true.1 rfl⟩, by decide, by decide⟩
  | number => exact ⟨by decide, List.all_eq_true.1 rfl⟩
  | operator => exact .inl rfl
  | letWord | printWord | equals | semicolon | openParen | closeParen => exact rfl

theorem length_freshName (names : List String) :
    (freshName names).length = totalLength names + 1 := by
  rw [freshName, String.length_ofList, List.length_replicate]

theorem length_le_totalLength {name : String} {names : List String} (h : name ∈ names) :
    name.length ≤ totalLength names := by
  induction names with
  | nil => cases h
  | cons first others ih =>
    rw [totalLength]
    rcases List.mem_cons.1 h with rfl | hmem
    · omega
    · have := ih hmem
      omega

theorem freshName_not_mem (names : List String) : freshName names ∉ names := by
  intro hmem
  have := length_le_totalLength hmem
  rw [length_freshName] at this
  omega

theorem spells_freshName (names : List String) : TokenKind.ident.Spells (freshName names).toList := by
  rw [freshName, String.toList_ofList, List.replicate_succ]
  refine ⟨⟨'_', _, rfl, by decide, fun c hc => ?_⟩, ?_, ?_⟩
  · rw [List.eq_of_mem_replicate hc]
    decide
  · intro h
    cases h
  · intro h
    cases h

namespace Progress

theorem take?_sample {part : Part} {due due' : List Part} {declared : List String}
    {kind : TokenKind} (hnext : nextDue (part :: due) kind = some due') (hkind : kind ≠ .ident) :
    (⟨part :: due, declared⟩ : Progress).take? (.made kind kind.sample) =
      some ⟨due', declared⟩ := by
  refine take?_eq_some.2 ⟨hnext, ?_⟩
  rw [declaredAfter?, Token.made, if_neg hkind]

/-- Some tokens that the lexer could have made take progress to the end of a program. -/
def Completable (q : Progress) : Prop :=
  ∃ more, Spelled more ∧ ∃ declared, q.run more = some ⟨[], declared⟩

theorem Completable.of_take? {q q' : Progress} {t : Token} (h : q'.Completable)
    (htake : q.take? t = some q') (ht : t.kind.Spells t.raw.toList) : q.Completable := by
  obtain ⟨more, hmore, declared, hrun⟩ := h
  refine ⟨t :: more, spelled_cons.2 ⟨ht, hmore⟩, declared, ?_⟩
  rw [run, htake]
  exact hrun

/-- **Whatever is due, the lexer could make tokens for it**: a new name where a name is to
be declared, numbers for operands. -/
theorem completable_of_ordered {q : Progress} (h : Ordered q.due) : q.Completable := by
  obtain ⟨due, declared⟩ := q
  induction due generalizing declared with
  | nil => exact ⟨[], fun t ht => absurd ht List.not_mem_nil, declared, rfl⟩
  | cons part due ih =>
    cases part with
    | token kind =>
      have hnext : nextDue (.token kind :: due) kind = some due := if_pos rfl
      have hkind := (h.plain kind (List.mem_cons_self ..)).1
      exact (ih declared h.tail).of_take? (take?_sample hnext hkind) (spells_sample kind)
    | name =>
      have htake : (⟨.name :: due, declared⟩ : Progress).take? (.made .ident (freshName declared)) =
          some ⟨due, declared ++ [freshName declared]⟩ :=
        take?_name rfl rfl (freshName_not_mem declared)
      exact (ih _ h.tail).of_take? htake (spells_freshName declared)
    | operand =>
      exact (ih declared h.tail).of_take? (take?_sample rfl (by decide)) (spells_sample .number)
    | more =>
      have hright : (⟨.operand :: due, declared⟩ : Progress).Completable :=
        (ih declared h.tail).of_take? (take?_sample rfl (by decide)) (spells_sample .number)
      exact hright.of_take? (take?_sample rfl (by decide)) (spells_sample .operator)

end Progress

end LetPrint
