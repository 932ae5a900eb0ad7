import LetPrint.Proofs.Language
import Mathlib.Data.List.Induction

/-! What must still come.

After some tokens of a program it is known which parts of the statement they break off
in are due, the next one first. `nextDue` is the step that one more token takes, and
`dueAfter` the run. A list of kinds is a program exactly if the run takes every kind and
leaves nothing due (`isProgram_iff`), and what is due can always be supplied
(`exists_dueAfter_eq_nil`). -/
namespace LetPrint

/-- A part of a statement that is due. -/
inductive Part where
  /-- A token of the one kind that can stand here. -/
  | token (kind : TokenKind)
  /-- The name that a let statement declares. -/
  | name
  | operand
  /-- An operator and its right operand, or nothing. -/
  | more
deriving DecidableEq, Repr

/-- What is due after the word `let`. -/
def letDue : List Part :=
  [.name, .token .equals, .operand, .more, .token .semicolon]

/-- What is due after the word `print`. -/
def printDue : List Part :=
  [.token .openParen, .operand, .more, .token .closeParen, .token .semicolon]

/-- What is due after one more token, if it can come next. -/
def nextDue : List Part → TokenKind → Option (List Part)
  | [], .letWord => some letDue
  | [], .printWord => some printDue
  | [], _ => none
  | .token expected :: due, kind => if kind = expected then some due else none
  | .name :: due, kind => if kind = .ident then some due else none
  | .operand :: due, kind => if kind = .number ∨ kind = .ident then some due else none
  | .more :: due, kind => if kind = .operator then some (.operand :: due) else nextDue due kind

/-- The steps of `nextDue`, one by one. -/
inductive NextDue : List Part → TokenKind → List Part → Prop
  | letWord : NextDue [] .letWord letDue
  | printWord : NextDue [] .printWord printDue
  | token {kind : TokenKind} {due : List Part} : NextDue (.token kind :: due) kind due
  | name {due : List Part} : NextDue (.name :: due) .ident due
  | operand {kind : TokenKind} {due : List Part} : kind = .number ∨ kind = .ident →
    NextDue (.operand :: due) kind due
  | more {due : List Part} : NextDue (.more :: due) .operator (.operand :: due)
  | skip {kind : TokenKind} {due due' : List Part} : NextDue due kind due' →
    NextDue (.more :: due) kind due'

theorem nextDue_cases {due due' : List Part} {kind : TokenKind}
    (h : nextDue due kind = some due') : NextDue due kind due' := by
  induction due with
  | nil =>
    cases kind <;> simp only [nextDue, reduceCtorEq, Option.some.injEq] at h
    case letWord =>
      subst h
      exact .letWord
    case printWord =>
      subst h
      exact .printWord
  | cons part due ih =>
    cases part with
    | token expected =>
      obtain ⟨rfl, rfl⟩ : kind = expected ∧ due = due' := by simpa [nextDue] using h
      exact .token
    | name =>
      obtain ⟨rfl, rfl⟩ : kind = .ident ∧ due = due' := by simpa [nextDue] using h
      exact .name
    | operand =>
      obtain ⟨hkind, rfl⟩ : (kind = .number ∨ kind = .ident) ∧ due = due' := by
        simpa [nextDue] using h
      exact .operand hkind
    | more =>
      rw [nextDue] at h
      by_cases hkind : kind = .operator
      · subst hkind
        rw [if_pos rfl] at h
        cases h
        exact .more
      · rw [if_neg hkind] at h
        exact .skip (ih h)

/-- What is due after some more tokens. -/
def dueAfter (due : List Part) : List TokenKind → Option (List Part)
  | [] => some due
  | kind :: rest => (nextDue due kind).bind fun due => dueAfter due rest

theorem dueAfter_append (due : List Part) (front back : List TokenKind) :
    dueAfter due (front ++ back) = (dueAfter due front).bind fun due => dueAfter due back := by
  induction front generalizing due with
  | nil => rfl
  | cons kind front ih =>
    simp only [List.cons_append, dueAfter, Option.bind_assoc, ih]

/-! ### Programs run through -/

/-- An expression ends where no operator follows. -/
theorem dueAfter_expr {value : List TokenKind} (h : IsExpr value) (due : List Part)
    {kind : TokenKind} (hkind : kind ≠ .operator) (rest : List TokenKind) :
    dueAfter (.operand :: .more :: due) (value ++ kind :: rest) = dueAfter due (kind :: rest) := by
  cases h with
  | single hoperand => cases hoperand <;> simp [dueAfter, nextDue, hkind]
  | binary hleft hright => cases hleft <;> cases hright <;> simp [dueAfter, nextDue]

theorem dueAfter_stmt {first : List TokenKind} (h : IsStmt first) (rest : List TokenKind) :
    dueAfter [] (first ++ rest) = dueAfter [] rest := by
  cases h with
  | @letStmt value hvalue =>
    have hopen : dueAfter [] (.letWord :: .ident :: .equals :: (value ++ .semicolon :: rest)) =
        dueAfter (.operand :: .more :: [.token .semicolon]) (value ++ .semicolon :: rest) := rfl
    rw [List.cons_append, List.cons_append, List.cons_append, List.append_assoc,
      List.singleton_append, hopen, dueAfter_expr hvalue _ (by decide)]
    rfl
  | @printStmt value hvalue =>
    have hopen :
        dueAfter [] (.printWord :: .openParen :: (value ++ .closeParen :: .semicolon :: rest)) =
          dueAfter (.operand :: .more :: [.token .closeParen, .token .semicolon])
            (value ++ .closeParen :: .semicolon :: rest) := rfl
    rw [List.cons_append, List.cons_append, List.append_assoc, List.cons_append,
      List.singleton_append, hopen, dueAfter_expr hvalue _ (by decide)]
    rfl

theorem dueAfter_program {kinds : List TokenKind} (h : IsProgram kinds) :
    dueAfter [] kinds = some [] := by
  induction h with
  | nil => rfl
  | cons hfirst _ ih => rw [dueAfter_stmt hfirst, ih]

/-! ### Runs are programs -/

/-- The kinds of tokens that supply what is due. -/
inductive Fills : List Part → List TokenKind → Prop
  | nil : Fills [] []
  | token {due : List Part} {kinds : List TokenKind} (kind : TokenKind) :
    Fills due kinds → Fills (.token kind :: due) (kind :: kinds)
  | name {due : List Part} {kinds : List TokenKind} :
    Fills due kinds → Fills (.name :: due) (.ident :: kinds)
  | operand {due : List Part} {kinds : List TokenKind} {kind : TokenKind} :
    kind = .number ∨ kind = .ident → Fills due kinds → Fills (.operand :: due) (kind :: kinds)
  | more {due : List Part} {kinds : List TokenKind} :
    Fills (.operand :: due) kinds → Fills (.more :: due) (.operator :: kinds)
  | skip {due : List Part} {kinds : List TokenKind} :
    Fills due kinds → Fills (.more :: due) kinds

theorem isOperand_of_kind {kind : TokenKind} (h : kind = .number ∨ kind = .ident) :
    IsOperand [kind] := by
  rcases h with rfl | rfl
  · exact .number
  · exact .name

theorem Fills.exists_expr {due : List Part} {kinds : List TokenKind}
    (h : Fills (.operand :: .more :: due) kinds) :
    ∃ value rest, kinds = value ++ rest ∧ IsExpr value ∧ Fills due rest := by
  cases h with
  | @operand _ _ left hleft h =>
    cases h with
    | skip h => exact ⟨[left], _, rfl, .single (isOperand_of_kind hleft), h⟩
    | more h =>
      cases h with
      | @operand _ _ right hright h =>
        exact ⟨[left] ++ .operator :: [right], _, rfl,
          .binary (isOperand_of_kind hleft) (isOperand_of_kind hright), h⟩

theorem Fills.isStmt_let {kinds : List TokenKind} (h : Fills letDue kinds) :
    IsStmt (.letWord :: kinds) := by
  cases h with
  | name h =>
    cases h with
    | token _ h =>
      obtain ⟨value, rest, rfl, hvalue, hrest⟩ := h.exists_expr
      cases hrest with
      | token _ hend =>
        cases hend
        exact .letStmt hvalue

theorem Fills.isStmt_print {kinds : List TokenKind} (h : Fills printDue kinds) :
    IsStmt (.printWord :: kinds) := by
  cases h with
  | token _ h =>
    obtain ⟨value, rest, rfl, hvalue, hrest⟩ := h.exists_expr
    cases hrest with
    | token _ hrest =>
      cases hrest with
      | token _ hend =>
        cases hend
        exact .printStmt hvalue

/-- The kinds supply what is due, and then a program follows. -/
def Completes (due : List Part) (kinds : List TokenKind) : Prop :=
  ∃ front back, kinds = front ++ back ∧ Fills due front ∧ IsProgram back

/-- One step back: the kind comes in front of what supplies the parts after it. -/
theorem Completes.cons {due due' : List Part} {kind : TokenKind} {kinds : List TokenKind}
    (hnext : NextDue due kind due') (h : Completes due' kinds) : Completes due (kind :: kinds) := by
  induction hnext with
  | letWord =>
    obtain ⟨front, back, rfl, hfront, hback⟩ := h
    exact ⟨[], .letWord :: (front ++ back), rfl, .nil, .cons hfront.isStmt_let hback⟩
  | printWord =>
    obtain ⟨front, back, rfl, hfront, hback⟩ := h
    exact ⟨[], .printWord :: (front ++ back), rfl, .nil, .cons hfront.isStmt_print hback⟩
  | @token kind _ =>
    obtain ⟨front, back, rfl, hfront, hback⟩ := h
    exact ⟨kind :: front, back, rfl, .token kind hfront, hback⟩
  | name =>
    obtain ⟨front, back, rfl, hfront, hback⟩ := h
    exact ⟨.ident :: front, back, rfl, .name hfront, hback⟩
  | @operand kind _ hkind =>
    obtain ⟨front, back, rfl, hfront, hback⟩ := h
    exact ⟨kind :: front, back, rfl, .operand hkind hfront, hback⟩
  | more =>
    obtain ⟨front, back, rfl, hfront, hback⟩ := h
    exact ⟨.operator :: front, back, rfl, .more hfront, hback⟩
  | skip _ ih =>
    obtain ⟨front, back, heq, hfront, hback⟩ := ih h
    exact ⟨front, back, heq, .skip hfront, hback⟩

theorem completes_of_dueAfter {due : List Part} {kinds : List TokenKind}
    (h : dueAfter due kinds = some []) : Completes due kinds := by
  induction kinds generalizing due with
  | nil =>
    rw [dueAfter] at h
    cases h
    exact ⟨[], [], rfl, .nil, .nil⟩
  | cons kind kinds ih =>
    rw [dueAfter, Option.bind_eq_some_iff] at h
    obtain ⟨due', hnext, hrest⟩ := h
    exact .cons (nextDue_cases hnext) (ih hrest)

/-- **A program is a run that leaves nothing due.** -/
theorem isProgram_iff {kinds : List TokenKind} : IsProgram kinds ↔ dueAfter [] kinds = some [] := by
  constructor
  · exact dueAfter_program
  · intro h
    obtain ⟨front, back, rfl, hfront, hback⟩ := completes_of_dueAfter h
    cases hfront
    exact hback

/-- What is due can be supplied. -/
theorem exists_dueAfter_eq_nil (due : List Part) : ∃ kinds, dueAfter due kinds = some [] := by
  induction due with
  | nil => exact ⟨[], rfl⟩
  | cons part due ih =>
    obtain ⟨kinds, hkinds⟩ := ih
    cases part with
    | token kind => exact ⟨kind :: kinds, by simp [dueAfter, nextDue, hkinds]⟩
    | name => exact ⟨.ident :: kinds, by simp [dueAfter, nextDue, hkinds]⟩
    | operand => exact ⟨.number :: kinds, by simp [dueAfter, nextDue, hkinds]⟩
    | more => exact ⟨.operator :: .number :: kinds, by simp [dueAfter, nextDue, hkinds]⟩

/-! ### Names that are due -/

/-- Parts in the order in which a statement has them: a name to declare comes first only,
and neither a name nor the word `let` is due as a plain token. -/
structure Ordered (due : List Part) : Prop where
  name_first : .name ∉ due.tail
  plain : ∀ kind, .token kind ∈ due → kind ≠ .ident ∧ kind ≠ .letWord

theorem Ordered.tail {part : Part} {due : List Part} (h : Ordered (part :: due)) : Ordered due := by
  refine ⟨fun hname => h.name_first (List.mem_of_mem_tail hname), fun kind hkind => ?_⟩
  exact h.plain kind (List.mem_cons_of_mem part hkind)

theorem ordered_letDue : Ordered letDue := by
  refine ⟨by decide, fun kind hkind => ?_⟩
  simp only [letDue, List.mem_cons, List.not_mem_nil, Part.token.injEq, reduceCtorEq, or_false,
    false_or] at hkind
  rcases hkind with rfl | rfl <;> decide

theorem ordered_printDue : Ordered printDue := by
  refine ⟨by decide, fun kind hkind => ?_⟩
  simp only [printDue, List.mem_cons, List.not_mem_nil, Part.token.injEq, reduceCtorEq, or_false,
    false_or] at hkind
  rcases hkind with rfl | rfl | rfl <;> decide

theorem Ordered.head?_ne {part : Part} {due : List Part} (h : Ordered (part :: due)) :
    due.head? ≠ some .name := by
  intro hhead
  exact h.name_first (List.mem_of_mem_head? hhead)

/-- A name to declare is due right after the word `let` and nowhere else. -/
theorem Ordered.next {due due' : List Part} {kind : TokenKind} (h : Ordered due)
    (hnext : NextDue due kind due') :
    Ordered due' ∧ (due'.head? = some .name ↔ kind = .letWord) := by
  induction hnext with
  | letWord => exact ⟨ordered_letDue, by decide⟩
  | printWord => exact ⟨ordered_printDue, by decide⟩
  | @token kind _ =>
    have hplain := (h.plain kind (List.mem_cons_self ..)).2
    exact ⟨h.tail, iff_of_false h.head?_ne hplain⟩
  | name => exact ⟨h.tail, iff_of_false h.head?_ne (by decide)⟩
  | operand hkind =>
    refine ⟨h.tail, iff_of_false h.head?_ne ?_⟩
    rcases hkind with rfl | rfl <;> decide
  | more =>
    refine ⟨⟨h.name_first, fun kind hmem => ?_⟩, iff_of_false (by simp) (by decide)⟩
    exact h.tail.plain kind (by simpa using hmem)
  | skip _ ih => exact ih h.tail

theorem ordered_nil : Ordered [] :=
  ⟨List.not_mem_nil, fun _ h => absurd h List.not_mem_nil⟩

theorem ordered_dueAfter {kinds : List TokenKind} {due : List Part}
    (h : dueAfter [] kinds = some due) :
    Ordered due ∧ (due.head? = some .name ↔ kinds.getLast? = some .letWord) := by
  induction kinds using List.reverseRecOn generalizing due with
  | nil =>
    rw [dueAfter] at h
    cases h
    exact ⟨ordered_nil, by simp⟩
  | append_singleton kinds kind ih =>
    rw [dueAfter_append, Option.bind_eq_some_iff] at h
    obtain ⟨before, hbefore, hlast⟩ := h
    rw [dueAfter, Option.bind_eq_some_iff] at hlast
    obtain ⟨after, hnext, hdue⟩ := hlast
    rw [dueAfter] at hdue
    cases hdue
    rw [List.getLast?_concat, Option.some.injEq]
    exact (ih hbefore).1.next (nextDue_cases hnext)

end LetPrint
