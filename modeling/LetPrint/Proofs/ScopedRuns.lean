import LetPrint.Proofs.Backends
import LetPrint.Proofs.Scopes

/-! Running the statements of a program that was read.

When a statement starts, the names of the statements before it are bound, and nothing but
these (`invariant_of_executeAll`). So a name without a value can only be the one that the
statement declares itself, and what remains is a division by zero (`comes_of_scoped`). A run
that fails does so at a first statement (`exists_firstFailing`). -/
namespace LetPrint

/-! ### Two flaws of a statement -/

namespace Stmt

def isPrint : Stmt → Bool
  | letStmt .. => false
  | printStmt .. => true

/-- A statement whose expression mentions the name that it declares. -/
def IsSelfReference (s : Stmt) : Prop :=
  ∃ n ∈ s.declared, n ∈ s.value.names

end Stmt

/-- A division whose operands have values, the right one zero. -/
def Expr.DividesByZero (bindings : Bindings Int) (e : Expr) : Prop :=
  ∃ left right span value, e = .binary left .div right span ∧
    left.node.value bindings = .ok value ∧ right.node.value bindings = .ok 0

/-- A sink that refuses no value. -/
def Sink.TakesAll (sink : Sink) : Prop :=
  ∀ taken value, sink taken value = .ok ()

/-! ### Values of flat expressions -/

namespace Expr
variable {e : Expr} {bindings : Bindings Int} {n : String}

theorem IsOperand.value_of_bound (h : e.IsOperand) (hbound : ∀ n ∈ e.names, n ∈ bindings.names) :
    ∃ value, e.node.value bindings = .ok value := by
  cases h with
  | literal value span => exact ⟨value, rfl⟩
  | var name span =>
    cases hvalue : bindings.find? name.raw with
    | none =>
      have hname := hbound name.raw (List.mem_singleton_self _)
      exact absurd hname (Bindings.find?_eq_none_iff.1 hvalue)
    | some value => exact ⟨value, by simp only [node, Node.value, hvalue]⟩

theorem IsOperand.value_of_unbound (h : e.IsOperand) (hn : n ∈ e.names)
    (hunbound : n ∉ bindings.names) : e.node.value bindings = .error (.unbound n) := by
  cases h with
  | literal => exact absurd hn List.not_mem_nil
  | var name span =>
    obtain rfl := List.mem_singleton.1 hn
    simp only [node, Node.value, Bindings.find?_eq_none_iff.2 hunbound]

/-- With all its names bound, an expression has a value or divides by zero. -/
theorem IsFlat.value_of_bound (h : e.IsFlat) (hbound : ∀ n ∈ e.names, n ∈ bindings.names) :
    (∃ value, e.node.value bindings = .ok value) ∨
      e.node.value bindings = .error .divisionByZero ∧ e.DividesByZero bindings := by
  cases h with
  | operand h => exact .inl (h.value_of_bound hbound)
  | @binary left right op span hleft hright =>
    rw [names, List.forall_mem_append] at hbound
    obtain ⟨l, hl⟩ := hleft.value_of_bound hbound.left
    obtain ⟨r, hr⟩ := hright.value_of_bound hbound.right
    rw [value_binary op span hl hr]
    cases hvalue : op.apply l r with
    | some value => exact .inl ⟨value, rfl⟩
    | none =>
      obtain ⟨rfl, rfl⟩ := BinOp.apply_eq_none_iff.1 hvalue
      exact .inr ⟨rfl, left, right, span, l, rfl, hl, hr⟩

/-- With one name unbound, an expression fails for that name, whatever its operator is. -/
theorem IsFlat.value_of_unbound (h : e.IsFlat) (hn : n ∈ e.names) (hunbound : n ∉ bindings.names)
    (hothers : ∀ other ∈ e.names, other ∈ bindings.names ∨ other = n) :
    e.node.value bindings = .error (.unbound n) := by
  cases h with
  | operand h => exact h.value_of_unbound hn hunbound
  | @binary left right op span hleft hright =>
    rw [names, List.forall_mem_append] at hothers
    by_cases hnleft : n ∈ left.names
    · exact value_binary_left op span right (hleft.value_of_unbound hnleft hunbound)
    · have hnright : n ∈ right.names := (List.mem_append.1 hn).resolve_left hnleft
      obtain ⟨l, hl⟩ := hleft.value_of_bound fun other hother =>
        (hothers.left other hother).resolve_right fun heq => hnleft (heq ▸ hother)
      exact value_binary_right op span hl (hright.value_of_unbound hnright hunbound)

end Expr

/-! ### One statement -/

/-- What a statement may come to in a store. It is done, its name is bound and its value is
printed; or its value is missing, for one of two reasons, and the store is as it was. -/
inductive Comes (s : Stmt) (store : Store) : EStateM.Result EvalError Store Unit → Prop
  | done {store' : Store} : ¬ s.IsSelfReference →
    store'.bindings.names = store.bindings.names ++ s.declared →
    store'.printed.size = store.printed.size + [s].countP Stmt.isPrint →
      Comes s store (.ok () store')
  | selfReference {name : String} : name ∈ s.declared → name ∈ s.value.names →
    s.value.node.value store.bindings = .error (.unbound name) →
      Comes s store (.error (.unbound name) store)
  | zeroDivisor : ¬ s.IsSelfReference → s.value.DividesByZero store.bindings →
    s.value.node.value store.bindings = .error .divisionByZero →
      Comes s store (.error .divisionByZero store)

theorem Store.print_of_takesAll {sink : Option Sink} (hsink : ∀ take ∈ sink, take.TakesAll)
    (value : Int) (s : Store) :
    ∃ s', Store.print sink value s = .ok () s' ∧ s'.bindings = s.bindings ∧
      s'.printed = s.printed.push value := by
  cases sink with
  | none => exact ⟨_, rfl, rfl, rfl⟩
  | some take =>
    have htake := hsink take rfl s.sunk value
    refine ⟨{s with printed := s.printed.push value, sunk := s.sunk.push value}, ?_, rfl, rfl⟩
    simp only [Store.print, htake]

section Runs
variable {sink : Option Sink} (hsink : ∀ take ∈ sink, take.TakesAll)
include hsink

/-- A statement with a value is done. -/
theorem comes_of_value {s : Stmt} {store : Store} {value : Int}
    (hself : ¬ s.IsSelfReference) (hnew : ∀ n ∈ s.declared, n ∉ store.bindings.names)
    (hv : s.value.node.value store.bindings = .ok value) :
    Comes s store (Eval.execute sink s.node store) := by
  cases s with
  | letStmt name e span =>
    rw [Eval.execute_let sink store (e := e) name span hv]
    have hname := hnew name.raw (List.mem_singleton_self _)
    exact .done hself (Bindings.names_insert value hname) rfl
  | printStmt e span =>
    rw [Eval.execute_print sink store (e := e) span hv]
    obtain ⟨store', hprint, hbindings, hprinted⟩ := Store.print_of_takesAll hsink value store
    simp only [Eval.print, hprint]
    refine .done hself ?_ ?_
    · rw [hbindings, Stmt.declared, List.append_nil]
    · rw [hprinted, Array.size_push]
      rfl

omit hsink in
theorem execute_of_error {s : Stmt} {store : Store} {error : EvalError}
    (hv : s.value.node.value store.bindings = .error error) :
    Eval.execute sink s.node store = .error error store := by
  cases s with
  | letStmt name e span => exact Eval.execute_let_of_error sink store name span hv
  | printStmt e span => exact Eval.execute_print_of_error sink store span hv

/-- **A statement that starts where exactly the names before it are bound** is done, or it
refers to itself, or it divides by zero. -/
theorem comes_of_scoped {s : Stmt} {rest : Program} {store : Store}
    (hscoped : Scoped store.bindings.names (s :: rest)) (hflat : s.value.IsFlat) :
    Comes s store (Eval.execute sink s.node store) := by
  obtain ⟨⟩ | ⟨hnew, hnames, _⟩ := hscoped
  by_cases hself : s.IsSelfReference
  · obtain ⟨name, hdeclared, hused⟩ := hself
    have hothers : ∀ other ∈ s.value.names, other ∈ store.bindings.names ∨ other = name := by
      intro other hother
      refine (List.mem_append.1 (hnames other hother)).imp_right fun hown => ?_
      cases s with
      | letStmt => rw [List.mem_singleton.1 hown, List.mem_singleton.1 hdeclared]
      | printStmt => exact absurd hdeclared List.not_mem_nil
    have hv := hflat.value_of_unbound hused (hnew name hdeclared) hothers
    rw [execute_of_error hv]
    exact .selfReference hdeclared hused hv
  · have hbound : ∀ n ∈ s.value.names, n ∈ store.bindings.names := by
      intro n hn
      refine (List.mem_append.1 (hnames n hn)).resolve_right fun hown => ?_
      exact hself ⟨n, hown, hn⟩
    obtain ⟨value, hv⟩ | ⟨hv, hzero⟩ := hflat.value_of_bound hbound
    · exact comes_of_value hsink hself hnew hv
    · rw [execute_of_error hv]
      exact .zeroDivisor hself hzero hv

/-! ### Statements in order -/

/-- **What a run of statements preserves.** The bound names are those of the statements
executed so far, so many values were printed as there are print statements among these, and
the statements that follow are scoped. -/
theorem invariant_of_executeAll {before rest : Program} {store store' : Store}
    (hscoped : Scoped store.bindings.names (before ++ rest))
    (hflat : ∀ s ∈ before, s.value.IsFlat)
    (h : Eval.executeAll sink before.nodes store = .ok () store') :
    store'.bindings.names = store.bindings.names ++ before.declared ∧
      store'.printed.size = store.printed.size + before.countP Stmt.isPrint ∧
        Scoped store'.bindings.names rest := by
  induction before generalizing store with
  | nil =>
    cases h
    exact ⟨(List.append_nil _).symm, rfl, hscoped⟩
  | cons s others ih =>
    have hcomes := comes_of_scoped hsink hscoped (hflat s (List.mem_cons_self ..))
    have hothers : ∀ s ∈ others, s.value.IsFlat := fun other hother =>
      hflat other (List.mem_cons_of_mem s hother)
    rw [Program.nodes_cons] at h
    generalize hexec : Eval.execute sink s.node store = result at hcomes
    cases hcomes with
    | @done next _ hnames hprinted =>
      rw [Eval.executeAll_of_ok sink hexec] at h
      obtain ⟨⟩ | ⟨_, _, hscoped⟩ := hscoped
      rw [← hnames] at hscoped
      obtain ⟨hnames', hprinted', hrest⟩ := ih hscoped hothers h
      refine ⟨?_, ?_, hrest⟩
      · rw [hnames', hnames, List.append_assoc]
        rfl
      · rw [hprinted', hprinted, ← List.singleton_append (l := others), List.countP_append,
          Nat.add_assoc]
    | selfReference =>
      rw [Eval.executeAll_of_error sink hexec] at h
      cases h
    | zeroDivisor =>
      rw [Eval.executeAll_of_error sink hexec] at h
      cases h

end Runs

namespace Eval
variable {sink : Option Sink}

theorem executeAll_append_of_ok {nodes : List Node} {s s' : Store}
    (h : executeAll sink nodes s = .ok () s') (rest : List Node) :
    executeAll sink (nodes ++ rest) s = executeAll sink rest s' := by
  induction nodes generalizing s with
  | nil =>
    cases h
    rfl
  | cons node nodes ih =>
    rw [List.cons_append]
    cases hexec : execute sink node s with
    | ok _ next =>
      rw [executeAll_of_ok sink hexec] at h ⊢
      exact ih h
    | error error failed =>
      rw [executeAll_of_error sink hexec] at h
      cases h

/-- Of nodes that cannot all be executed there is a first that cannot. -/
theorem exists_failing {nodes : List Node} {s failed : Store} {error : EvalError}
    (h : executeAll sink nodes s = .error error failed) :
    ∃ (before after : List Node) (node : Node) (s' : Store), nodes = before ++ node :: after ∧
      executeAll sink before s = .ok () s' ∧ execute sink node s' = .error error failed := by
  induction nodes generalizing s with
  | nil => cases h
  | cons node nodes ih =>
    cases hexec : execute sink node s with
    | error error' failed' =>
      rw [executeAll_of_error sink hexec] at h
      cases h
      exact ⟨[], nodes, node, s, rfl, rfl, hexec⟩
    | ok _ next =>
      rw [executeAll_of_ok sink hexec] at h
      obtain ⟨before, after, other, s', rfl, hbefore, hfails⟩ := ih h
      refine ⟨node :: before, after, other, s', rfl, ?_, hfails⟩
      rw [executeAll_of_ok sink hexec]
      exact hbefore

end Eval

/-- The statement at which a run ends: those before it were executed, and it fails. -/
def FirstFailing (sink : Option Sink) (program : Program) (s : Stmt) : Prop :=
  ∃ (before after : Program) (store failed : Store) (error : EvalError),
    program = before ++ s :: after ∧ Eval.executeAll sink before.nodes ∅ = .ok () store ∧
      Eval.execute sink s.node store = .error error failed

/-- A run that fails does so at a first statement. -/
theorem exists_firstFailing {sink : Option Sink} {program : Program} {store failed : Store}
    {error : EvalError} (h : Eval.executeAll sink program.nodes store = .error error failed) :
    ∃ (before after : Program) (s : Stmt) (store' : Store), program = before ++ s :: after ∧
      Eval.executeAll sink before.nodes store = .ok () store' ∧
        Eval.execute sink s.node store' = .error error failed := by
  obtain ⟨before, after, node, store', hnodes, hbefore, hfails⟩ := Eval.exists_failing h
  obtain ⟨first, others, rfl, rfl, hothers⟩ := List.map_eq_append_iff.1 hnodes
  obtain ⟨s, after, rfl, rfl, rfl⟩ := List.map_eq_cons_iff.1 hothers
  exact ⟨first, after, s, store', rfl, hbefore, hfails⟩

namespace WellFormed
variable {sink : Option Sink} {before rest after : Program} {s : Stmt} {store : Store}

/-- The invariant of a run from its beginning. -/
theorem invariant (h : WellFormed (before ++ rest)) (hsink : ∀ take ∈ sink, take.TakesAll)
    (hbefore : Eval.executeAll sink before.nodes ∅ = .ok () store) :
    store.bindings.names = before.declared ∧ store.printed.size = before.countP Stmt.isPrint ∧
      Scoped store.bindings.names rest := by
  have hscoped : Scoped (∅ : Store).bindings.names (before ++ rest) := h.isScoped
  have hflat := (List.forall_mem_append.1 h.isFlat).left
  obtain ⟨hnames, hprinted, hrest⟩ := invariant_of_executeAll hsink hscoped hflat hbefore
  exact ⟨hnames, hprinted.trans (Nat.zero_add _), hrest⟩

/-- What a statement of a run comes to. -/
theorem comes (h : WellFormed (before ++ s :: after)) (hsink : ∀ take ∈ sink, take.TakesAll)
    (hbefore : Eval.executeAll sink before.nodes ∅ = .ok () store) :
    Comes s store (Eval.execute sink s.node store) := by
  obtain ⟨_, _, hscoped⟩ := h.invariant hsink hbefore
  have hflat := (List.forall_mem_append.1 h.isFlat).right s (List.mem_cons_self ..)
  exact comes_of_scoped hsink hscoped hflat

end WellFormed

end LetPrint
