import LetPrint.Proofs.Backends
import LetPrint.Proofs.PartialRuns
import LetPrint.Proofs.Scopes

/-! How high the stack grows.

The code of an expression needs room for as many values as the expression is high, on top
of what is on the stack already, and a statement leaves the stack as it found it
(`mem_starts_program`). An instruction that fails only takes values away
(`suffix_of_runThrough_error`), so the height of the highest expression bounds the stack of
every run of a program, also where the run ends early. -/
namespace LetPrint

namespace Expr

/-- How many values the code of an expression puts on the stack at once, at most. The left
value waits there while the right one is worked out. -/
def height : Expr → Nat
  | literal .. => 1
  | var .. => 1
  | binary left _ right _ => max left.height (1 + right.height)

theorem height_pos (e : Expr) : 0 < e.height := by
  cases e with
  | literal => exact Nat.one_pos
  | var => exact Nat.one_pos
  | binary left op right =>
    rw [height]
    omega

theorem IsOperand.height_eq {e : Expr} (h : e.IsOperand) : e.height = 1 := by
  cases h <;> rfl

theorem IsFlat.height_le {e : Expr} (h : e.IsFlat) : e.height ≤ 2 := by
  cases h with
  | operand h =>
    rw [h.height_eq]
    decide
  | binary op span hleft hright =>
    rw [height, hleft.height_eq, hright.height_eq]
    decide

theorem code_length_pos (e : Expr) : 0 < e.code.length := by
  cases e with
  | literal => exact Nat.one_pos
  | var => exact Nat.one_pos
  | binary left op right =>
    rw [code, List.length_append]
    exact Nat.succ_pos _

end Expr

namespace Stmt

/-- The instruction of a statement that uses the value of its expression. -/
def last : Stmt → Instr
  | letStmt name _ _ => ⟨.store, some (.text name.raw)⟩
  | printStmt .. => ⟨.print, none⟩

theorem code_eq (s : Stmt) : s.code = s.value.code ++ [s.last] := by
  cases s <;> rfl

end Stmt

namespace Machine
variable {setup : Setup} {m m' next : Machine} {instr : Instr} {rest code : List Instr}

/-! ### Steps that fail -/

section Failures
variable {error : MachineError}

/-- A failing instruction puts nothing on the stack. -/
theorem suffix_of_step_error (h : step setup instr m = .error error m') : m'.stack <:+ m.stack := by
  obtain ⟨fault, stack, heffect, rfl, rfl⟩ | ⟨refusal, stack, store, heffect, rfl, rfl⟩ :=
    step_eq_error h
  · obtain ⟨taken, hstack, _⟩ := exists_taken_of_faulted heffect
    rw [hstack]
    exact List.suffix_append taken stack
  · obtain ⟨value, hstack, _⟩ := exists_print_of_refused heffect
    rw [hstack]
    exact List.suffix_cons value stack

/-- When a run fails, the stack is part of what it was before the failing instruction. -/
theorem suffix_of_runThrough_error (h : runThrough setup code m = .error error m') :
    ∃ start ∈ startsThrough setup m code, m'.stack <:+ start.stack := by
  obtain ⟨done, instr, rest, start, rfl, hdone, hfails⟩ := runThrough_eq_error_iff.1 h
  have hstart := mem_startsThrough_iff.2 ⟨done, instr, rest, rfl, hdone⟩
  exact ⟨start, hstart, suffix_of_step_error hfails⟩

end Failures

/-! ### Inside the code of a program -/

/-- The machines inside some code that another machine stands before, with at most so many
values on top of what was on the stack, and with none before the first instruction. -/
inductive Inside (m : Machine) (length height : Nat) : Machine → Prop
  | ahead {k : Nat} {above : List Int} : k < length → above.length ≤ height →
    (k = 0 → above = []) → Inside m length height (m.ahead k above)

theorem ahead_zero (m : Machine) : m.ahead 0 [] = m := by
  simp [ahead]

theorem storing_zero (m : Machine) : m.storing 0 m.store = m := by
  simp [storing]

theorem storing_storing (m : Machine) (j k : Nat) (store store' : Store) :
    (m.storing j store).storing k store' = m.storing (j + k) store' := by
  simp only [storing, Int.natCast_add, Int.add_assoc]

theorem Inside.start {length : Nat} (h : 0 < length) (m : Machine) (height : Nat) :
    Inside m length height m := by
  have hstart : Inside m length height (m.ahead 0 []) := .ahead h (Nat.zero_le _) fun _ => rfl
  rw [ahead_zero] at hstart
  exact hstart

theorem Inside.mono {length longer height higher : Nat} (h : Inside m length height m')
    (hlength : length ≤ longer) (hheight : height ≤ higher) : Inside m longer higher m' := by
  obtain ⟨hk, habove, hzero⟩ := h
  exact .ahead (Nat.lt_of_lt_of_le hk hlength) (Nat.le_trans habove hheight) hzero

/-- Inside code that comes after other code, with some values pushed in between. -/
theorem Inside.after {first length height : Nat} {pushed : List Int} (hfirst : 0 < first)
    (h : Inside (m.ahead first pushed) length height m') :
    Inside m (first + length) (pushed.length + height) m' := by
  obtain ⟨hk, habove, _⟩ := h
  rw [ahead_ahead]
  refine .ahead (by omega) ?_ (by omega)
  rw [List.length_append]
  omega

variable (sink : Option Sink)

/-- **While an expression is worked out**, the stack grows by its height at most. -/
theorem mem_starts_expr {e : Expr}
    (h : m' ∈ startsThrough (.plain sink) m (e.code ++ rest)) :
    Inside m e.code.length e.height m' ∨
      ∃ value, e.node.value m.store.bindings = .ok value ∧
        m' ∈ startsThrough (.plain sink) (m.ahead e.code.length [value]) rest := by
  induction e generalizing m rest with
  | literal value span =>
    obtain rfl | ⟨next, hstep, hnext⟩ := mem_startsThrough_cons.1 h
    · exact .inl (.start Nat.one_pos m' 1)
    · rw [step_immediate] at hstep
      cases hstep
      exact .inr ⟨value, rfl, hnext⟩
  | var name span =>
    obtain rfl | ⟨next, hstep, hnext⟩ := mem_startsThrough_cons.1 h
    · exact .inl (.start Nat.one_pos m' 1)
    · cases hvalue : m.store.bindings.find? name.raw with
      | none =>
        rw [step_unbound sink m hvalue] at hstep
        cases hstep
      | some value =>
        rw [step_reference sink m hvalue] at hstep
        cases hstep
        exact .inr ⟨value, by simp only [Expr.node, Node.value, hvalue], hnext⟩
  | binary left op right span ihl ihr =>
    have hlength : (Expr.binary left op right span).code.length =
        left.code.length + (right.code.length + 1) := by
      simp [Expr.code]
    have hheight : (Expr.binary left op right span).height = max left.height (1 + right.height) :=
      rfl
    rw [hlength, hheight]
    rw [Expr.code, List.append_assoc, List.append_assoc] at h
    obtain hleft | ⟨l, hl, h⟩ := ihl h
    · exact .inl (hleft.mono (by omega) (by omega))
    · obtain hright | ⟨r, hr, h⟩ := ihr h
      · refine .inl ((hright.after left.code_length_pos).mono (by omega) ?_)
        exact Nat.le_max_right ..
      · rw [List.singleton_append] at h
        obtain rfl | ⟨next, hstep, hnext⟩ := mem_startsThrough_cons.1 h
        · rw [ahead_ahead]
          have hleftPos := left.code_length_pos
          have hrightPos := right.height_pos
          refine .inl (.ahead (by omega) ?_ (by omega))
          simp only [List.singleton_append, List.length_cons, List.length_nil]
          omega
        · cases ha : op.apply l r with
          | none =>
            rw [step_zero_divisor sink _ rfl ha] at hstep
            cases hstep
          | some value =>
            rw [step_operator sink _ rfl ha] at hstep
            cases hstep
            refine .inr ⟨value, by rw [value_binary op span hl hr, ha], ?_⟩
            have hpassed : m.ahead (left.code.length + (right.code.length + 1)) [value] =
                {(m.ahead left.code.length [l]).ahead right.code.length [r] with
                  stack := value :: m.stack
                  ip := ((m.ahead left.code.length [l]).ahead right.code.length [r]).ip + 1} := by
              simp only [ahead, Int.natCast_add, Int.add_assoc]
              rfl
            rw [hpassed]
            exact hnext

/-- The last instruction of a statement does what the statement does. -/
theorem step_last {s : Stmt} {value : Int} (hv : s.value.node.value m.store.bindings = .ok value)
    (hstep : step (.plain sink) s.last (m.ahead s.value.code.length [value]) = .ok () next) :
    ∃ store, Eval.execute sink s.node m.store = .ok () store ∧
      next = m.storing (s.value.code.length + 1) store := by
  cases s with
  | letStmt name e span =>
    rw [Stmt.value] at hv
    rw [Stmt.last, step_store sink _ rfl] at hstep
    cases hstep
    refine ⟨_, Eval.execute_let sink m.store name span hv, ?_⟩
    rw [storing, Int.natCast_add, ← Int.add_assoc]
    rfl
  | printStmt e span =>
    rw [Stmt.value] at hv
    have hstack : (m.ahead e.code.length [value]).stack = value :: m.stack := rfl
    cases hprint : Store.print sink value m.store with
    | error refusal store =>
      rw [Stmt.last, Stmt.value, step_print_refused sink _ hstack hprint] at hstep
      cases hstep
    | ok _ store =>
      rw [Stmt.last, Stmt.value, step_print sink _ hstack hprint] at hstep
      cases hstep
      refine ⟨store, ?_, ?_⟩
      · rw [Eval.execute_print sink m.store span hv]
        simp only [Eval.print, hprint]
      · rw [storing, Int.natCast_add, ← Int.add_assoc]
        rfl

/-- A statement uses the value that its expression leaves, and no other one. -/
theorem mem_starts_stmt {s : Stmt}
    (h : m' ∈ startsThrough (.plain sink) m (s.code ++ rest)) :
    Inside m s.code.length s.value.height m' ∨
      ∃ store, Eval.execute sink s.node m.store = .ok () store ∧
        m' ∈ startsThrough (.plain sink) (m.storing s.code.length store) rest := by
  rw [s.code_eq, List.append_assoc] at h
  rw [s.code_eq, List.length_append, List.length_singleton]
  obtain hinside | ⟨value, hv, h⟩ := mem_starts_expr sink h
  · exact .inl (hinside.mono (Nat.le_succ _) le_rfl)
  · rw [List.singleton_append] at h
    obtain rfl | ⟨next, hstep, hnext⟩ := mem_startsThrough_cons.1 h
    · have hlength := s.value.code_length_pos
      exact .inl (.ahead (Nat.lt_succ_self _) s.value.height_pos (by omega))
    · obtain ⟨store, hexec, rfl⟩ := step_last sink hv hstep
      exact .inr ⟨store, hexec, hnext⟩

/-- **Wherever a run is**, it is inside a statement, the statements before it have been
executed, and the stack has grown by the height of its expression at most. -/
theorem mem_starts_program {program : Program}
    (h : m' ∈ startsThrough (.plain sink) m (program.code ++ rest)) :
    (∃ (before : Program) (s : Stmt) (after : Program) (store : Store),
      program = before ++ s :: after ∧
        Eval.executeAll sink before.nodes m.store = .ok () store ∧
          Inside (m.storing before.code.length store) s.code.length s.value.height m') ∨
      ∃ store, Eval.executeAll sink program.nodes m.store = .ok () store ∧
        m' ∈ startsThrough (.plain sink) (m.storing program.code.length store) rest := by
  induction program generalizing m with
  | nil =>
    refine .inr ⟨m.store, rfl, ?_⟩
    rw [Program.code_nil, List.length_nil, storing_zero]
    exact h
  | cons s others ih =>
    rw [Program.code_cons, List.append_assoc] at h
    rw [Program.code_cons, Program.nodes_cons]
    obtain hinside | ⟨store, hexec, h⟩ := mem_starts_stmt sink h
    · refine .inl ⟨[], s, others, m.store, rfl, rfl, ?_⟩
      rw [Program.code_nil, List.length_nil, storing_zero]
      exact hinside
    · rw [Eval.executeAll_of_ok sink hexec]
      obtain ⟨before, s', after, store', rfl, hbefore, hinside⟩ | ⟨store', hall, h⟩ := ih h
      · refine .inl ⟨s :: before, s', after, store', rfl, ?_, ?_⟩
        · rw [Program.nodes_cons, Eval.executeAll_of_ok sink hexec]
          exact hbefore
        · rw [storing_storing] at hinside
          rw [Program.code_cons, List.length_append]
          exact hinside
      · refine .inr ⟨store', hall, ?_⟩
        rw [storing_storing] at h
        rw [List.length_append]
        exact h

end Machine

end LetPrint
