import LetPrint.Proofs.PartialRuns
import LetPrint.Proofs.Rejection

/-! What a fault leaves behind.

An instruction that is at fault leaves the machine where it is. Variables, printed values and
values delivered are those that the instructions before it left; only operands that it has
taken already are gone (`spared_of_step`). The evaluator has no operands to lose: a statement
that fails leaves the store as it was, however deep in its expression the fault lies. In
neither case does it matter what is run: any instruction in any state, any node. A refusal of
the sink is the one failure that comes too late, when the value has been printed already. -/
namespace LetPrint

/-- What a fault at an instruction leaves of a machine: all but operands. The two on top of the
stack are lost at most, and none unless an operator was to be applied. -/
structure Machine.Spared (instr : Instr) (m m' : Machine) : Prop where
  code : m'.code = m.code
  ip : m'.ip = m.ip
  next : m'.next = some instr
  store : m'.store = m.store
  stack : ∃ taken : List Int, m.stack = taken ++ m'.stack ∧ taken.length ≤ 2 ∧
    (instr.op.operands < 2 → taken = [])

namespace Machine
variable {setup : Setup} {instr : Instr} {m m' : Machine} {fault : MachineFault} {ip : Int}
variable {blamed : Option Instr}

/-- **A fault spares the machine.** -/
theorem spared_of_step (hnext : m.next = some instr)
    (h : step setup instr m = .error (.fault fault ip blamed) m') : Spared instr m m' := by
  obtain ⟨found, stack, heffect, _, rfl⟩ | ⟨refusal, stack, store, _, herror, _⟩ := step_eq_error h
  · exact ⟨rfl, rfl, hnext, rfl, exists_taken_of_faulted heffect⟩
  · cases herror

/-- A machine that is at fault has come to the instruction that it was at fault with. -/
theorem exists_spared_of_run (h : run setup m = .error (.fault fault ip blamed) m') :
    ∃ start ∈ starts setup m, ∃ instr, start.next = some instr ∧
      step setup instr start = .error (.fault fault ip blamed) m' ∧ Spared instr start m' := by
  obtain ⟨done, instr, rest, start, hleft, hdone, hfails⟩ := run_eq_error_iff.1 h
  have hnext : start.next = some instr := next_of_left (left_of_runThrough hleft hdone)
  refine ⟨start, ?_, instr, hnext, hfails, spared_of_step hnext hfails⟩
  exact mem_startsThrough_iff.2 ⟨done, instr, rest, hleft, hdone⟩

/-- What the next instruction fails with, the run fails with. -/
theorem run_of_step_error {error : MachineError} (hnext : m.next = some instr)
    (h : step setup instr m = .error error m') : run setup m = .error error m' := by
  obtain ⟨rest, hleft⟩ := List.head?_eq_some_iff.1 hnext
  exact run_eq_error_iff.2 ⟨[], instr, rest, m, hleft, rfl, h⟩

end Machine

section Statements
variable {sink : Option Sink} {node : Node} {nodes : List Node} {s s' : Store} {error : EvalError}

/-- **A statement that fails spares the store**, unless the sink refuses a value. -/
theorem store_of_failing (h : Eval.execute sink node s = .error error s')
    (herror : ∀ refusal, error ≠ .refused refusal) : s' = s := by
  obtain hstore | ⟨value, refusal, hrefused, _⟩ := Eval.execute_eq_error h
  · exact hstore
  · exact absurd hrefused (herror refusal)

theorem exists_failing_of_interpret (h : Eval.interpret sink nodes s = .error error s')
    (herror : ∀ refusal, error ≠ .refused refusal) :
    ∃ before node after, nodes = before ++ node :: after ∧
      Eval.executeAll sink before s = .ok () s' ∧ Eval.execute sink node s' = .error error s' := by
  rw [Eval.interpret_eq] at h
  cases hexec : Eval.executeAll sink nodes s with
  | ok _ next =>
    rw [hexec] at h
    cases h
  | error failure failed =>
    rw [hexec] at h
    cases h
    obtain ⟨before, after, node, start, hsplit, hbefore, hfails⟩ := Eval.exists_failing hexec
    obtain rfl := store_of_failing hfails herror
    exact ⟨before, node, after, hsplit, hbefore, hfails⟩

end Statements

/-- **Faults spare the store.** An instruction that is at fault ends the run with the machine
spared, wherever in a run that is. A statement that fails leaves the store as it was, so that a
run ends with the store that the statements before it have left. -/
theorem faults_spare_store (setup : Machine.Setup) :
    (∀ {instr : Instr} {m m' : Machine} {fault : MachineFault} {ip : Int} {blamed : Option Instr},
      m.next = some instr → Machine.step setup instr m = .error (.fault fault ip blamed) m' →
        Machine.run setup m = .error (.fault fault ip blamed) m' ∧ Machine.Spared instr m m') ∧
    (∀ {m m' : Machine} {fault : MachineFault} {ip : Int} {blamed : Option Instr},
      Machine.run setup m = .error (.fault fault ip blamed) m' →
        ∃ start ∈ Machine.starts setup m, ∃ instr, start.next = some instr ∧
          Machine.step setup instr start = .error (.fault fault ip blamed) m' ∧
            Machine.Spared instr start m') ∧
    (∀ {node : Node} {s s' : Store} {error : EvalError},
      Eval.execute setup.sink node s = .error error s' →
        (∀ refusal, error ≠ .refused refusal) → s' = s) ∧
    ∀ {nodes : List Node} {s s' : Store} {error : EvalError},
      Eval.interpret setup.sink nodes s = .error error s' →
        (∀ refusal, error ≠ .refused refusal) →
          ∃ before node after, nodes = before ++ node :: after ∧
            Eval.executeAll setup.sink before s = .ok () s' ∧
              Eval.execute setup.sink node s' = .error error s' := by
  refine ⟨?_, ?_, ?_, ?_⟩
  · intro instr m m' fault ip blamed hnext h
    exact ⟨Machine.run_of_step_error hnext h, Machine.spared_of_step hnext h⟩
  · intro m m' fault ip blamed h
    exact Machine.exists_spared_of_run h
  · intro node s s' error h herror
    exact store_of_failing h herror
  · intro nodes s s' error h herror
    exact exists_failing_of_interpret h herror

/-- A machine in the middle of things, about to push a divisor. -/
def Machine.midway : Machine :=
  ⟨[⟨.push, some (.immediate 0)⟩, ⟨.div, none⟩, ⟨.store, some (.text "x")⟩], 0, [7, 5],
    ⟨⟨[("x", 1)]⟩, #[4], #[4]⟩⟩

/-- The same machine where it is about to divide. -/
def Machine.beforeDivision : Machine :=
  {midway with ip := 1, stack := [0, 7, 5]}

/-- The same machine after the division has failed. -/
def Machine.afterDivision : Machine :=
  {midway with ip := 1, stack := [5]}

/-- A statement with the same division inside its expression. -/
def dividingNode : Node :=
  .letStmt ⟨.ident, "x", ⟨4, 5⟩⟩
    (.binary (.literal 1 ⟨8, 9⟩) (.known .add)
      (.binary (.var ⟨.ident, "x", ⟨12, 13⟩⟩ ⟨12, 13⟩) (.known .div) (.literal 0 ⟨16, 17⟩) ⟨12, 17⟩)
      ⟨8, 17⟩) ⟨0, 18⟩

theorem faults_spare_store_dividing :
    Machine.run (.plain (some .collecting)) .beforeDivision =
        .error (.fault .divisionByZero 1 (some ⟨.div, none⟩)) .afterDivision ∧
      Machine.Spared ⟨.div, none⟩ .beforeDivision .afterDivision ∧
      (∃ start ∈ Machine.starts (.plain (some .collecting)) .midway, ∃ instr,
        start.next = some instr ∧
          Machine.step (.plain (some .collecting)) instr start =
            .error (.fault .divisionByZero 1 (some ⟨.div, none⟩)) .afterDivision ∧
          Machine.Spared instr start .afterDivision) ∧
      (∃ s, Eval.execute (some .collecting) dividingNode Machine.midway.store =
        .error .divisionByZero s ∧ s = Machine.midway.store) ∧
      ∃ before node after, [.printStmt (.literal 4 ⟨6, 7⟩) ⟨0, 9⟩, dividingNode] =
          before ++ node :: after ∧
        Eval.executeAll (some .collecting) before ⟨⟨[("x", 1)]⟩, #[], #[]⟩ =
          .ok () Machine.midway.store ∧
        Eval.execute (some .collecting) node Machine.midway.store =
          .error .divisionByZero Machine.midway.store := by
  obtain ⟨hstep, hrun, hexecute, hinterpret⟩ := faults_spare_store (.plain (some .collecting))
  have hfirst : Machine.run (.plain (some .collecting)) .beforeDivision =
        .error (.fault .divisionByZero 1 (some ⟨.div, none⟩)) .afterDivision ∧
      Machine.Spared ⟨.div, none⟩ .beforeDivision .afterDivision := hstep rfl rfl
  have hnode : Eval.execute (some .collecting) dividingNode Machine.midway.store =
      .error .divisionByZero Machine.midway.store := rfl
  exact ⟨hfirst.left, hfirst.right, hrun (m := .midway) rfl, ⟨_, hnode, hexecute hnode nofun⟩,
    hinterpret (s := ⟨⟨[("x", 1)]⟩, #[], #[]⟩) rfl nofun⟩

end LetPrint
