import LetPrint.Proofs.PartialRuns
import LetPrint.Proofs.Translation

/-! What the code of an expression does.

A machine that stands before the code of an expression, with any instructions after
it and any values on its stack, does what the evaluator does with the variables of
its store. If the expression has a value, the machine comes out behind the code with
that value on top of the stack and nothing else changed (`runThrough_code`). If it
has none, the machine stops inside the code for the same reason, with its store as it
was (`runThrough_code_of_error`). -/
namespace LetPrint

theorem BinOp.apply_eq_none_iff {op : BinOp} {left right : Int} :
    op.apply left right = none ↔ op = .div ∧ right = 0 := by
  cases op <;> simp [BinOp.apply]

/-! ### Values of expressions -/

section Values
variable {bindings : Bindings Int} {left right : Expr} {l r : Int} {error : EvalError}
variable (op : BinOp) (span : Span)

theorem value_binary (hl : left.node.value bindings = .ok l) (hr : right.node.value bindings = .ok r) :
    (Expr.binary left op right span).node.value bindings =
      match op.apply l r with
      | some value => .ok value
      | none => .error .divisionByZero := by
  cases hvalue : op.apply l r <;>
    simp only [Expr.node, Node.value, hl, hr, bind, Except.bind, hvalue]

theorem value_binary_left (right : Expr) (hl : left.node.value bindings = .error error) :
    (Expr.binary left op right span).node.value bindings = .error error := by
  simp only [Expr.node, Node.value, hl, bind, Except.bind]

theorem value_binary_right (hl : left.node.value bindings = .ok l)
    (hr : right.node.value bindings = .error error) :
    (Expr.binary left op right span).node.value bindings = .error error := by
  simp only [Expr.node, Node.value, hl, hr, bind, Except.bind]

end Values

namespace Machine

/-- The machine some instructions further on, with more values on its stack. -/
def ahead (m : Machine) (count : Nat) (above : List Int) : Machine :=
  {m with stack := above ++ m.stack, ip := m.ip + count}

theorem ahead_ahead (m : Machine) (j k : Nat) (a b : List Int) :
    (m.ahead j a).ahead k b = m.ahead (j + k) (b ++ a) := by
  simp only [ahead, List.append_assoc, Int.natCast_add, Int.add_assoc]

theorem At.ahead {m : Machine} {done rest : List Instr} (h : m.At (done ++ rest))
    (above : List Int) : (m.ahead done.length above).At rest :=
  h.passed rfl rfl

theorem left_ahead {m : Machine} {done rest : List Instr} (h : m.left = done ++ rest)
    (above : List Int) : (m.ahead done.length above).left = rest :=
  upcoming_add h

/-- The instruction, the fault and the error of one and the same stop: a name without a
value, or a divisor of zero. -/
inductive SameStop : Instr → MachineFault → EvalError → Prop
  | unbound (name : String) :
    SameStop ⟨.push, some (.reference name)⟩ (.unbound name) (.unbound name)
  | zeroDivisor : SameStop ⟨.div, none⟩ .divisionByZero .divisionByZero

/-- A machine that goes through `code` stops inside it where the evaluator stops with
`error`. It may have left values on its stack; nothing else but its place changed. -/
def StopsInside (sink : Option Sink) (m : Machine) (code rest : List Instr)
    (error : EvalError) : Prop :=
  ∃ (k : Nat) (above : List Int) (instr : Instr) (fault : MachineFault),
    k < code.length ∧ SameStop instr fault error ∧
      runThrough (.plain sink) (code ++ rest) m =
        .error (.fault fault (m.ip + k) (some instr)) (m.ahead k above)

section Stops
variable {sink : Option Sink} {m : Machine} {first code rest : List Instr} {error : EvalError}

/-- A stop inside some code is a stop inside a longer one. -/
theorem StopsInside.extend {more : List Instr} (h : StopsInside sink m code (more ++ rest) error) :
    StopsInside sink m (code ++ more) rest error := by
  obtain ⟨k, above, instr, fault, hk, hstop, hrun⟩ := h
  refine ⟨k, above, instr, fault, ?_, hstop, ?_⟩
  · rw [List.length_append]
    omega
  · rw [List.append_assoc]
    exact hrun

/-- A stop inside some code is a stop after the code that comes before it and pushes
some values. -/
theorem StopsInside.after (pushed : List Int)
    (hfirst : runThrough (.plain sink) (first ++ (code ++ rest)) m =
      runThrough (.plain sink) (code ++ rest) (m.ahead first.length pushed))
    (h : StopsInside sink (m.ahead first.length pushed) code rest error) :
    StopsInside sink m (first ++ code) rest error := by
  obtain ⟨k, above, instr, fault, hk, hstop, hrun⟩ := h
  refine ⟨first.length + k, above ++ pushed, instr, fault, ?_, hstop, ?_⟩
  · rw [List.length_append]
    omega
  · rw [List.append_assoc, hfirst, hrun, ahead_ahead, Int.natCast_add, ← Int.add_assoc]
    rfl

end Stops

variable (sink : Option Sink)

/-- **The code of an expression pushes its value.** -/
theorem runThrough_code {e : Expr} {value : Int} {m : Machine}
    (hv : e.node.value m.store.bindings = .ok value) (rest : List Instr) :
    runThrough (.plain sink) (e.code ++ rest) m =
      runThrough (.plain sink) rest (m.ahead e.code.length [value]) := by
  induction e generalizing m value rest with
  | literal n span =>
    cases hv
    exact runThrough_of_ok (step_immediate sink m n) rest
  | var name span =>
    have hbound : m.store.bindings.find? name.raw = some value := by
      simp only [Expr.node, Node.value] at hv
      split at hv
      · next found hfound => cases hv; exact hfound
      · cases hv
    exact runThrough_of_ok (step_reference sink m hbound) rest
  | binary left op right span ihl ihr =>
    cases hl : left.node.value m.store.bindings with
    | error error => rw [value_binary_left op span right hl] at hv; cases hv
    | ok l =>
      cases hr : right.node.value m.store.bindings with
      | error error => rw [value_binary_right op span hl hr] at hv; cases hv
      | ok r =>
        rw [value_binary op span hl hr] at hv
        cases ha : op.apply l r with
        | none => rw [ha] at hv; cases hv
        | some result =>
          rw [ha] at hv
          cases hv
          have hleft := ihl hl (right.code ++ ([⟨op.opcode, none⟩] ++ rest))
          have hright := ihr (m := m.ahead left.code.length [l]) hr ([⟨op.opcode, none⟩] ++ rest)
          have hop := step_operator sink
            ((m.ahead left.code.length [l]).ahead right.code.length [r]) rfl ha
          rw [Expr.code, List.append_assoc, List.append_assoc, hleft, hright, List.singleton_append,
            runThrough_of_ok hop rest]
          simp only [ahead, List.length_append, List.length_singleton, Int.natCast_add,
            Int.add_assoc]
          rfl

/-- **The code of an expression without a value stops where the evaluator does.** -/
theorem runThrough_code_of_error {e : Expr} {error : EvalError} {m : Machine} {rest : List Instr}
    (hv : e.node.value m.store.bindings = .error error) (hleft : m.left = e.code ++ rest) :
    StopsInside sink m e.code rest error := by
  induction e generalizing m rest with
  | literal n span => cases hv
  | var name span =>
    have hunbound : m.store.bindings.find? name.raw = none ∧ .unbound name.raw = error := by
      simp only [Expr.node, Node.value] at hv
      split at hv
      · cases hv
      · next hnone => cases hv; exact ⟨hnone, rfl⟩
    obtain ⟨hnone, rfl⟩ := hunbound
    have hstep := step_unbound sink m hnone
    rw [next_of_left hleft] at hstep
    refine ⟨0, [], _, _, Nat.one_pos, .unbound name.raw, ?_⟩
    simpa [Expr.code, ahead] using runThrough_of_error hstep rest
  | binary left op right span ihl ihr =>
    have hbefore : m.left = left.code ++ (right.code ++ [⟨op.opcode, none⟩] ++ rest) := by
      simpa only [Expr.code, List.append_assoc] using hleft
    rw [Expr.code, List.append_assoc]
    cases hl : left.node.value m.store.bindings with
    | error stop =>
      rw [value_binary_left op span right hl] at hv
      cases hv
      exact (ihl hl hbefore).extend
    | ok l =>
      have hthrough := runThrough_code sink hl (right.code ++ [⟨op.opcode, none⟩] ++ rest)
      have hbetween : (m.ahead left.code.length [l]).left =
          right.code ++ ([⟨op.opcode, none⟩] ++ rest) := by
        rw [left_ahead hbefore, List.append_assoc]
      cases hr : right.node.value m.store.bindings with
      | error stop =>
        rw [value_binary_right op span hl hr] at hv
        cases hv
        have hstop := ihr (m := m.ahead left.code.length [l]) hr hbetween
        exact .after [l] hthrough hstop.extend
      | ok r =>
        rw [value_binary op span hl hr] at hv
        cases ha : op.apply l r with
        | some result => rw [ha] at hv; cases hv
        | none =>
          rw [ha] at hv
          cases hv
          have hright := runThrough_code sink (m := m.ahead left.code.length [l]) hr
            ([⟨op.opcode, none⟩] ++ rest)
          have hop := step_zero_divisor sink
            ((m.ahead left.code.length [l]).ahead right.code.length [r]) rfl ha
          rw [next_of_left (left_ahead hbetween [r])] at hop
          have hstop : SameStop ⟨op.opcode, none⟩ .divisionByZero .divisionByZero := by
            rw [(BinOp.apply_eq_none_iff.1 ha).left]
            exact .zeroDivisor
          -- Both operands are off the stack again when the operation fails.
          refine ⟨left.code.length + right.code.length, [], _, _, by simp, hstop, ?_⟩
          rw [List.append_assoc, hthrough, List.append_assoc, hright, List.singleton_append,
            runThrough_of_error hop rest]
          simp only [ahead, List.nil_append, Int.natCast_add, Int.add_assoc]
          rfl

end Machine

end LetPrint
