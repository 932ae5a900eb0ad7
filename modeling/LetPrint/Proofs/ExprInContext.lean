import LetPrint.Proofs.FailedSteps
import LetPrint.Proofs.StraightLine

/-! The code of an expression among other code.

Wherever a machine comes to the code of an expression, whatever is on its stack and whatever has
run before, it does there what the evaluator does with the same variables. It goes through exactly
that code and leaves the value on top of the stack, or it stops inside for the same reason
(`expr_in_context`). What was on the stack stays there, and on top of it are never more values than
the expression is high. -/
namespace LetPrint

/-- An expression has the same value wherever names are bound to the same values, in whatever
order. -/
theorem value_congr {bindings bindings' : Bindings Int}
    (h : ∀ name, bindings.find? name = bindings'.find? name) (e : Expr) :
    e.node.value bindings = e.node.value bindings' := by
  induction e with
  | literal value span => rfl
  | var name span => simp only [Expr.node, Node.value, h]
  | binary left op right span ihl ihr => simp only [Expr.node, Node.value, ihl, ihr]

namespace Machine

/-- The machine has a store and some code in common with another, and everything that is on the
stack of that one below at most so many values. -/
def Within (m : Machine) (height : Nat) (m' : Machine) : Prop :=
  m'.code = m.code ∧ m'.store = m.store ∧
    ∃ above : List Int, m'.stack = above ++ m.stack ∧ above.length ≤ height

section Runs
variable {sink : Option Sink} {setup : Setup} {m m' : Machine} {code rest : List Instr}

theorem within_ahead {height : Nat} (m : Machine) (k : Nat) {above : List Int}
    (habove : above.length ≤ height) : m.Within height (m.ahead k above) :=
  ⟨rfl, rfl, above, rfl, habove⟩

theorem Inside.within {length height : Nat} (h : Inside m length height m') :
    m.Within height m' := by
  obtain ⟨_, habove, _⟩ := h
  exact within_ahead m _ habove

theorem within_of_starts {e : Expr} (h : m' ∈ startsThrough (.plain sink) m e.code) :
    m.Within e.height m' := by
  rw [← List.append_nil e.code] at h
  obtain hinside | ⟨_, _, hnone⟩ := mem_starts_expr sink h
  · exact hinside.within
  · exact absurd hnone List.not_mem_nil

/-- What is left of a higher stack on top of a lower one. -/
theorem length_le_of_suffix {above above' below : List Int}
    (h : above ++ below <:+ above' ++ below) : above.length ≤ above'.length := by
  have hlength := h.length_le
  rw [List.length_append, List.length_append] at hlength
  omega

/-- A fault is reported with the instruction that the machine is at. -/
theorem blamed_of_run {fault : MachineFault} {ip : Int} {blamed : Option Instr}
    (h : run setup m = .error (.fault fault ip blamed) m') : blamed = m'.next := by
  obtain ⟨start, _, instr, hnext, hstep, hspared⟩ := exists_spared_of_run h
  obtain ⟨_, _, _, herror, _⟩ | ⟨_, _, _, _, herror, _⟩ := step_eq_error hstep
  · cases herror
    rw [hnext, hspared.next]
  · cases herror

theorem next_ahead (hleft : m.left = code ++ rest) {k : Nat} (hk : k < code.length)
    (above : List Int) : (m.ahead k above).next = code[k]? := by
  have hsplit : m.left = code.take k ++ (code.drop k ++ rest) := by
    rw [← List.append_assoc, List.take_append_drop, hleft]
  have hbehind := left_ahead hsplit above
  rw [List.length_take, Nat.min_eq_left (Nat.le_of_lt hk)] at hbehind
  rw [Machine.next, hbehind, List.head?_append_of_ne_nil, List.head?_drop]
  rw [Ne, List.drop_eq_nil_iff]
  omega

theorem ip_le_of_runThrough_error {error : MachineError}
    (h : runThrough setup code m = .error error m') : m.ip ≤ m'.ip := by
  obtain ⟨done, instr, rest, start, _, hdone, hfails⟩ := runThrough_eq_error_iff.1 h
  have hpassed := (passed_of_runThrough hdone).2
  have hstays : m'.ip = start.ip := by
    obtain ⟨_, _, _, _, rfl⟩ | ⟨_, _, _, _, _, rfl⟩ := step_eq_error hfails <;> rfl
  omega

/-- A run that stops inside some code does so too if that is all there is. -/
theorem runThrough_of_stopped {error : MachineError} {k : Nat} {above : List Int}
    (h : runThrough setup (code ++ rest) m = .error error (m.ahead k above))
    (hk : k < code.length) : runThrough setup code m = .error error (m.ahead k above) := by
  cases hcode : runThrough setup code m with
  | error error' failed =>
    rw [runThrough_append_of_error hcode] at h
    exact h
  | ok _ next =>
    rw [runThrough_append_of_ok hcode] at h
    have hpassed : next.ip = m.ip + code.length := (passed_of_runThrough hcode).2
    have hstopped : next.ip ≤ m.ip + k := ip_le_of_runThrough_error h
    omega

end Runs

/-- The machine does with the code of an expression, behind which there is more code, what the
evaluator has done with the expression. -/
def Follows (sink : Option Sink) (m : Machine) (e : Expr) (rest : List Instr) (s : Store) :
    EStateM.Result EvalError Store Int → Prop
  | .ok value s' => s' = s ∧
      runThrough (.plain sink) e.code m = .ok () (m.ahead e.code.length [value]) ∧
      (m.ahead e.code.length [value]).left = rest ∧
      run (.plain sink) m = run (.plain sink) (m.ahead e.code.length [value])
  | .error error s' => s' = s ∧
      ∃ (k : Nat) (above : List Int) (instr : Instr) (fault : MachineFault),
        k < e.code.length ∧ e.code[k]? = some instr ∧ SameStop instr fault error ∧
        run (.plain sink) m = .error (.fault fault (m.ip + k) (some instr)) (m.ahead k above) ∧
        SameFailure (MachineError.fault fault (m.ip + k) (some instr)).failure error.failure

section Exprs
variable (sink : Option Sink) {e : Expr} {m m' : Machine} {rest : List Instr} {value : Int}
variable {error : EvalError}

theorem runThrough_own_code (hv : e.node.value m.store.bindings = .ok value) :
    runThrough (.plain sink) e.code m = .ok () (m.ahead e.code.length [value]) := by
  have hrun := runThrough_code sink hv []
  rwa [List.append_nil] at hrun

theorem run_of_value (hleft : m.left = e.code ++ rest)
    (hv : e.node.value m.store.bindings = .ok value) :
    run (.plain sink) m = run (.plain sink) (m.ahead e.code.length [value]) := by
  rw [run_eq, run_eq, hleft, left_ahead hleft, runThrough_code sink hv]

theorem run_of_stop (hleft : m.left = e.code ++ rest)
    (hv : e.node.value m.store.bindings = .error error) :
    ∃ (k : Nat) (above : List Int) (instr : Instr) (fault : MachineFault), k < e.code.length ∧
      e.code[k]? = some instr ∧ SameStop instr fault error ∧
      run (.plain sink) m = .error (.fault fault (m.ip + k) (some instr)) (m.ahead k above) := by
  obtain ⟨k, above, instr, fault, hk, hstop, hthrough⟩ := runThrough_code_of_error sink hv hleft
  have hrun : run (.plain sink) m =
      .error (.fault fault (m.ip + k) (some instr)) (m.ahead k above) := by
    rw [run_eq, hleft, hthrough]
  refine ⟨k, above, instr, fault, hk, ?_, hstop, hrun⟩
  rw [← next_ahead hleft hk above, ← blamed_of_run hrun]

/-- **The stack grows by the height of an expression at most**, also where its code fails. -/
theorem within_of_history (hleft : m.left = e.code ++ rest)
    (h : m' ∈ historyThrough (.plain sink) m e.code) : m.Within e.height m' := by
  rcases List.mem_append.1 h with hstart | hend
  · exact within_of_starts hstart
  · obtain rfl := List.mem_singleton.1 hend
    cases hv : e.node.value m.store.bindings with
    | ok value =>
      rw [runThrough_own_code sink hv]
      exact within_ahead m _ e.height_pos
    | error error =>
      obtain ⟨k, above, instr, fault, hk, _, hthrough⟩ := runThrough_code_of_error sink hv hleft
      have hown := runThrough_of_stopped hthrough hk
      obtain ⟨start, hstart, hsuffix⟩ := suffix_of_runThrough_error hown
      obtain ⟨_, _, above', hstack, habove⟩ := within_of_starts hstart
      rw [hown]
      refine within_ahead m k (Nat.le_trans ?_ habove)
      rw [hstack] at hsuffix
      exact length_le_of_suffix hsuffix

end Exprs

/-- **The code of an expression does what the evaluator does**, wherever a machine comes to it. -/
theorem expr_in_context (sink : Option Sink) (e : Expr) {m : Machine} {rest : List Instr}
    {s : Store} (hleft : m.left = e.code ++ rest)
    (hsame : ∀ name, s.bindings.find? name = m.store.bindings.find? name) :
    e.node.emission = .emit e.code ∧ m.Follows sink e rest s (Eval.evaluate e.node s) ∧
      ∀ m' ∈ historyThrough (.plain sink) m e.code, m.Within e.height m' := by
  refine ⟨e.emission_eq, ?_, fun m' h => within_of_history sink hleft h⟩
  have hvalue := value_congr hsame e
  rw [Eval.evaluate]
  cases hv : e.node.value m.store.bindings with
  | ok value =>
    rw [hvalue, hv]
    exact ⟨rfl, runThrough_own_code sink hv, left_ahead hleft _, run_of_value sink hleft hv⟩
  | error error =>
    rw [hvalue, hv]
    obtain ⟨k, above, instr, fault, hk, hinstr, hstop, hrun⟩ := run_of_stop sink hleft hv
    exact ⟨rfl, k, above, instr, fault, hk, hinstr, hstop, hrun,
      (SameError.stop _ hstop).failure⟩

/-- An operation on a variable and another operation on numbers, the first of which is 2. -/
def nested (inner outer : BinOp) (last : Int) : Expr :=
  .binary (.var ⟨.ident, "x", ⟨0, 1⟩⟩ ⟨0, 1⟩) outer
    (.binary (.literal 2 ⟨5, 6⟩) inner (.literal last ⟨9, 10⟩) ⟨5, 10⟩) ⟨0, 10⟩

/-- A machine with some values on its stack, before the code of an expression that stands among
other code. -/
def amid (e : Expr) : Machine :=
  ⟨⟨.push, some (.immediate 0)⟩ :: e.code ++ [⟨.store, some (.text "y")⟩], 1, [8, 5],
    ⟨⟨[("x", 1), ("y", 6)]⟩, #[4], #[]⟩⟩

/-- The variables of that machine, in another order. -/
def evaluated : Store :=
  ⟨⟨[("y", 6), ("x", 1)]⟩, #[], #[]⟩

theorem expr_in_context_nested :
    (amid (nested .sub .sub 9)).left = (nested .sub .sub 9).code ++ [⟨.store, some (.text "y")⟩] ∧
      (∀ name, evaluated.bindings.find? name =
        (amid (nested .sub .sub 9)).store.bindings.find? name) ∧
      Eval.evaluate (nested .sub .sub 9).node evaluated = .ok 8 evaluated ∧
      Follows none (amid (nested .sub .sub 9)) (nested .sub .sub 9) [⟨.store, some (.text "y")⟩]
        evaluated (.ok 8 evaluated) ∧
      (nested .sub .sub 9).height = 3 ∧
      Eval.evaluate (nested .sub .div 2).node evaluated = .error .divisionByZero evaluated ∧
      Follows none (amid (nested .sub .div 2)) (nested .sub .div 2) [⟨.store, some (.text "y")⟩]
        evaluated (.error .divisionByZero evaluated) := by
  have hsame : ∀ name, evaluated.bindings.find? name =
      Bindings.find? ⟨[("x", 1), ("y", 6)]⟩ name := by
    intro name
    by_cases hx : name = "x"
    · subst hx
      rfl
    · simp [evaluated, Bindings.find?, Bindings.lookup_cons_eq_ite, hx]
  have hleft : (amid (nested .sub .sub 9)).left =
      (nested .sub .sub 9).code ++ [⟨.store, some (.text "y")⟩] := rfl
  have hleft' : (amid (nested .sub .div 2)).left =
      (nested .sub .div 2).code ++ [⟨.store, some (.text "y")⟩] := rfl
  have hvalue : Eval.evaluate (nested .sub .sub 9).node evaluated = .ok 8 evaluated := rfl
  have herror : Eval.evaluate (nested .sub .div 2).node evaluated =
      .error .divisionByZero evaluated := rfl
  obtain ⟨_, hfollows, _⟩ := expr_in_context none (nested .sub .sub 9) hleft hsame
  obtain ⟨_, hstops, _⟩ := expr_in_context none (nested .sub .div 2) hleft' hsame
  rw [hvalue] at hfollows
  rw [herror] at hstops
  exact ⟨hleft, hsame, hvalue, hfollows, rfl, herror, hstops⟩

end Machine

end LetPrint
