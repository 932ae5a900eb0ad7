import LetPrint.Proofs.Reading

/-! Programs that were read from a text.

Not every tree is one that a text can be read as. In a program that was read, expressions
have at most one operator, names are spelled like names, and every name that a statement
mentions is declared before it or, in a let statement, by the statement itself
(`wellFormed_of_readProgram`). -/
namespace LetPrint

namespace Expr

/-- The names that an expression mentions, from left to right. -/
def names : Expr → List String
  | literal .. => []
  | var name _ => [name.raw]
  | binary left _ right _ => left.names ++ right.names

/-- A number or a name. -/
inductive IsOperand : Expr → Prop
  | literal (value : Int) (span : Span) : IsOperand (.literal value span)
  | var (name : Token) (span : Span) : IsOperand (.var name span)

/-- An expression without operations inside others. -/
inductive IsFlat : Expr → Prop
  | operand {e : Expr} : e.IsOperand → IsFlat e
  | binary {left right : Expr} (op : BinOp) (span : Span) : left.IsOperand → right.IsOperand →
    IsFlat (.binary left op right span)

end Expr

namespace Stmt

/-- The expression of a statement. -/
def value : Stmt → Expr
  | letStmt _ value _ => value
  | printStmt value _ => value

/-- The names that a statement declares: one or none. -/
def declared : Stmt → List String
  | letStmt name _ _ => [name.raw]
  | printStmt .. => []

/-- The names in a statement, the declared one first. -/
def names (s : Stmt) : List String :=
  s.declared ++ s.value.names

end Stmt

/-- The names that a program declares, in order. -/
def Program.declared (program : Program) : List String :=
  program.flatMap Stmt.declared

/-- Where some names are declared already, each other name is declared before its first use
or in the statement of that use, and no name is declared again. -/
inductive Scoped : List String → Program → Prop
  | nil (known : List String) : Scoped known []
  | cons {known : List String} {s : Stmt} {rest : Program} :
    (∀ n ∈ s.declared, n ∉ known) → (∀ n ∈ s.value.names, n ∈ known ++ s.declared) →
      Scoped (known ++ s.declared) rest → Scoped known (s :: rest)

/-! ### Scopes -/

namespace Progress
variable {known : List String} {due : List Part} {t : Token} {rest : List Token} {q : Progress}

/-- A token that is no name moves only what is due. -/
theorem run_cons (due' : List Part) (hdue : nextDue due t.kind = some due')
    (hident : t.kind ≠ .ident) :
    (⟨due, known⟩ : Progress).run (t :: rest) = (⟨due', known⟩ : Progress).run rest := by
  have htake : (⟨due, known⟩ : Progress).take? t = some ⟨due', known⟩ :=
    take?_eq_some.2 ⟨hdue, by rw [declaredAfter?, if_neg hident]⟩
  rw [run, htake, Option.bind_some]

theorem run_token {kind : TokenKind} (hkind : t.kind = kind) (hident : kind ≠ .ident) :
    (⟨.token kind :: due, known⟩ : Progress).run (t :: rest) = (⟨due, known⟩ : Progress).run rest :=
  run_cons due (by rw [nextDue, if_pos hkind]) (by rw [hkind]; exact hident)

/-- Where a name is due, the next token is a new one. -/
theorem new_of_run_name (hident : t.kind = .ident)
    (h : (⟨.name :: due, known⟩ : Progress).run (t :: rest) = some q) :
    t.raw ∉ known ∧ (⟨due, known ++ [t.raw]⟩ : Progress).run rest = some q := by
  by_cases hknown : t.raw ∈ known
  · have hnames : (⟨.name :: due, known⟩ : Progress).declaredAfter? t = none := by
      rw [declaredAfter?, if_pos hident, List.head?_cons, if_pos rfl, if_pos hknown]
    rw [run, take?, hnames] at h
    simp at h
  · rw [run, take?_name rfl hident hknown, Option.bind_some] at h
    exact ⟨hknown, h⟩

/-- Where an operand is due, a name is a known one. -/
theorem known_of_run_operand (hident : t.kind = .ident)
    (h : (⟨.operand :: due, known⟩ : Progress).run (t :: rest) = some q) :
    t.raw ∈ known ∧ (⟨due, known⟩ : Progress).run rest = some q := by
  by_cases hknown : t.raw ∈ known
  · rw [run, take?_operand rfl hident hknown, Option.bind_some] at h
    exact ⟨hknown, h⟩
  · have hnames : (⟨.operand :: due, known⟩ : Progress).declaredAfter? t = none := by
      rw [declaredAfter?, if_pos hident, List.head?_cons, if_neg (by simp), if_neg hknown]
    rw [run, take?, hnames] at h
    simp at h

end Progress

section Scopes
variable {known : List String} {due : List Part} {ts rest : List Token} {q : Progress}

theorem OperandOf.names_known {e : Expr} (h : OperandOf ts e)
    (hrun : (⟨.operand :: due, known⟩ : Progress).run (ts ++ rest) = some q) :
    (∀ n ∈ e.names, n ∈ known) ∧ (⟨due, known⟩ : Progress).run rest = some q := by
  cases h with
  | @literal t hkind =>
    rw [List.singleton_append, Progress.run_cons due (by simp [nextDue, hkind])
      (by simp [hkind])] at hrun
    exact ⟨fun n hn => absurd hn List.not_mem_nil, hrun⟩
  | @var t hkind =>
    rw [List.singleton_append] at hrun
    obtain ⟨hknown, hrest⟩ := Progress.known_of_run_operand hkind hrun
    exact ⟨List.forall_mem_singleton.2 hknown, hrest⟩

/-- The names of an expression are known. The token after it ends the expression. -/
theorem ExprOf.names_known {e : Expr} {t : Token} (h : ExprOf ts e) (ht : t.kind ≠ .operator)
    (hident : t.kind ≠ .ident)
    (hrun : (⟨.operand :: .more :: due, known⟩ : Progress).run (ts ++ t :: rest) = some q) :
    (∀ n ∈ e.names, n ∈ known) ∧ (⟨due, known⟩ : Progress).run (t :: rest) = some q := by
  cases h with
  | single hoperand =>
    obtain ⟨hnames, hrest⟩ := hoperand.names_known hrun
    refine ⟨hnames, ?_⟩
    have hskip :
        (⟨.more :: due, known⟩ : Progress).take? t = (⟨due, known⟩ : Progress).take? t := by
      rw [Progress.take?, Progress.take?, Progress.declaredAfter?, Progress.declaredAfter?, nextDue,
        if_neg ht, if_neg hident, if_neg hident]
    rw [Progress.run, hskip] at hrest
    exact hrest
  | @binary us vs o left right op hleft hop _ hright =>
    rw [List.append_assoc, List.cons_append] at hrun
    obtain ⟨hleftNames, hmore⟩ := hleft.names_known hrun
    rw [Progress.run_cons (.operand :: due) (by simp [nextDue, hop]) (by simp [hop])]
      at hmore
    obtain ⟨hrightNames, hrest⟩ := hright.names_known hmore
    refine ⟨fun n hn => ?_, hrest⟩
    rcases List.mem_append.1 hn with hn | hn
    · exact hleftNames n hn
    · exact hrightNames n hn

/-- **A program is scoped** if progress runs through its tokens. -/
theorem ProgramOf.isScoped {tokens : List Token} {program : Program} (h : ProgramOf tokens program)
    (hrun : (⟨[], known⟩ : Progress).run tokens = some q) : Scoped known program := by
  induction h generalizing known with
  | nil => exact .nil known
  | cons hfirst _ ih =>
    cases hfirst with
    | @letStmt first name eq last ts value hlet hname heq hvalue hlast =>
      simp only [List.cons_append, List.append_assoc, List.nil_append] at hrun
      rw [Progress.run_cons letDue (by rw [hlet]; rfl) (by simp [hlet])] at hrun
      obtain ⟨hnew, hrun⟩ := Progress.new_of_run_name hname hrun
      rw [Progress.run_token heq (by decide)] at hrun
      obtain ⟨hnames, hrun⟩ := hvalue.names_known (by simp [hlast]) (by simp [hlast]) hrun
      rw [Progress.run_token hlast (by decide)] at hrun
      exact .cons (List.forall_mem_singleton.2 hnew) hnames (ih hrun)
    | @printStmt first left right last ts value hprint hleft hvalue hright hlast =>
      simp only [List.cons_append, List.append_assoc, List.nil_append] at hrun
      rw [Progress.run_cons printDue (by rw [hprint]; rfl) (by simp [hprint]), printDue,
        Progress.run_token hleft (by decide)] at hrun
      obtain ⟨hnames, hrun⟩ := hvalue.names_known (by simp [hright]) (by simp [hright]) hrun
      rw [Progress.run_token hright (by decide), Progress.run_token hlast (by decide)] at hrun
      refine .cons (fun n hn => absurd hn List.not_mem_nil) ?_ ?_
      · rw [Stmt.declared, List.append_nil]
        exact hnames
      · rw [Stmt.declared, List.append_nil]
        exact ih hrun

end Scopes

/-! ### Shapes and spellings -/

theorem OperandOf.isOperand {ts : List Token} {e : Expr} (h : OperandOf ts e) : e.IsOperand := by
  cases h with
  | literal => exact .literal _ _
  | var => exact .var _ _

theorem ExprOf.isFlat {ts : List Token} {e : Expr} (h : ExprOf ts e) : e.IsFlat := by
  cases h with
  | single h => exact .operand h.isOperand
  | binary hleft _ _ hright => exact .binary _ _ hleft.isOperand hright.isOperand

theorem ProgramOf.isFlat {tokens : List Token} {program : Program} (h : ProgramOf tokens program) :
    ∀ s ∈ program, s.value.IsFlat := by
  induction h with
  | nil => exact fun s hs => absurd hs List.not_mem_nil
  | cons hfirst _ ih =>
    refine List.forall_mem_cons.2 ⟨?_, ih⟩
    cases hfirst with
    | letStmt _ _ _ hvalue => exact hvalue.isFlat
    | printStmt _ _ hvalue => exact hvalue.isFlat

/-- Every name is the text of a name token. -/
theorem ExprOf.mem_names {ts : List Token} {e : Expr} (h : ExprOf ts e) {n : String}
    (hn : n ∈ e.names) : ∃ t ∈ ts, t.kind = .ident ∧ t.raw = n := by
  have hoperand : ∀ {ts : List Token} {e : Expr}, OperandOf ts e → n ∈ e.names →
      ∃ t ∈ ts, t.kind = .ident ∧ t.raw = n := by
    intro ts e h hn
    cases h with
    | literal => exact absurd hn List.not_mem_nil
    | @var t hkind => exact ⟨t, List.mem_singleton_self t, hkind, (List.mem_singleton.1 hn).symm⟩
  cases h with
  | single h => exact hoperand h hn
  | binary hleft _ _ hright =>
    rcases List.mem_append.1 hn with hn | hn
    · obtain ⟨t, ht, hname⟩ := hoperand hleft hn
      exact ⟨t, List.mem_append_left _ ht, hname⟩
    · obtain ⟨t, ht, hname⟩ := hoperand hright hn
      exact ⟨t, List.mem_append_right _ (List.mem_cons_of_mem _ ht), hname⟩

theorem ProgramOf.mem_names {tokens : List Token} {program : Program} (h : ProgramOf tokens program)
    {s : Stmt} (hs : s ∈ program) {n : String} (hn : n ∈ s.names) :
    ∃ t ∈ tokens, t.kind = .ident ∧ t.raw = n := by
  induction h with
  | nil => exact absurd hs List.not_mem_nil
  | @cons ts us first others hfirst _ ih =>
    rcases List.mem_cons.1 hs with rfl | hs
    · cases hfirst with
      | @letStmt first name eq last ts value _ hname _ hvalue _ =>
        rcases List.mem_append.1 hn with hn | hn
        · refine ⟨name, by simp, hname, ?_⟩
          exact (List.mem_singleton.1 hn).symm
        · obtain ⟨t, ht, htoken⟩ := hvalue.mem_names hn
          exact ⟨t, by simp [ht], htoken⟩
      | printStmt _ _ hvalue _ _ =>
        obtain ⟨t, ht, htoken⟩ := hvalue.mem_names hn
        exact ⟨t, by simp [ht], htoken⟩
    · obtain ⟨t, ht, htoken⟩ := ih hs
      exact ⟨t, List.mem_append_right ts ht, htoken⟩

/-! ### Programs of a text -/

/-- A program that a text can be read as. -/
structure WellFormed (program : Program) : Prop where
  isScoped : Scoped [] program
  isFlat : ∀ s ∈ program, s.value.IsFlat
  spelled : ∀ s ∈ program, ∀ n ∈ s.names, TokenKind.ident.Spells n.toList

/-- **A program that was read is well formed.** -/
theorem wellFormed_of_readProgram {text : String} {program : Program}
    (h : readProgram text = .ok program) : WellFormed program := by
  obtain ⟨tokens, htokens, p, hparse⟩ := readProgram_eq_ok.1 h
  have hspelled := spelled_of_tokenize htokens
  obtain ⟨⟨declared, hrun⟩, htree⟩ := Parse.program_ok hparse
  have hprogram := htree hspelled.fitting
  refine ⟨hprogram.isScoped hrun, hprogram.isFlat, fun s hs n hn => ?_⟩
  obtain ⟨t, ht, hkind, rfl⟩ := hprogram.mem_names hs hn
  rw [← hkind]
  exact hspelled t ht

end LetPrint
