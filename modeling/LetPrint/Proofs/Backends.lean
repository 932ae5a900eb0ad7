import LetPrint.Proofs.ExprRuns
import LetPrint.Proofs.Reading

/-! The two backends agree.

A statement moves the store of a machine as it moves the store of the evaluator, or
stops both for the same reason with the same store (`runThrough_stmt`); so does a
program, by induction on its statements (`runThrough_program`). `backends_agree` puts
that together for whole runs: of a program, and of the text that it is written in. -/
namespace LetPrint

/-- The errors by which the two backends give up for one and the same reason. -/
inductive SameError : MachineError → EvalError → Prop
  | stop {instr : Instr} {fault : MachineFault} {error : EvalError} (ip : Int) :
    Machine.SameStop instr fault error → SameError (.fault fault ip (some instr)) error
  | refused (refusal : Refusal) : SameError (.refused refusal) (.refused refusal)

namespace Eval

/-! ### What a statement does to a store -/

variable (sink : Option Sink) (s : Store) {e : Expr} {value : Int} {error : EvalError}

theorem evaluate_of_ok (hv : e.node.value s.bindings = .ok value) :
    evaluate e.node s = .ok value s := by
  simp only [evaluate, hv]

theorem evaluate_of_error (hv : e.node.value s.bindings = .error error) :
    evaluate e.node s = .error error s := by
  simp only [evaluate, hv]

theorem execute_let (name : Token) (span : Span) (hv : e.node.value s.bindings = .ok value) :
    execute sink (Stmt.letStmt name e span).node s = .ok () (s.bind name.raw value) := by
  simp only [Stmt.node, execute, bind, EStateM.bind, evaluate_of_ok s hv]
  rfl

theorem execute_let_of_error (name : Token) (span : Span)
    (hv : e.node.value s.bindings = .error error) :
    execute sink (Stmt.letStmt name e span).node s = .error error s := by
  simp only [Stmt.node, execute, bind, EStateM.bind, evaluate_of_error s hv]

theorem execute_print (span : Span) (hv : e.node.value s.bindings = .ok value) :
    execute sink (Stmt.printStmt e span).node s = Eval.print sink value s := by
  simp only [Stmt.node, execute, bind, EStateM.bind, evaluate_of_ok s hv]

theorem execute_print_of_error (span : Span) (hv : e.node.value s.bindings = .error error) :
    execute sink (Stmt.printStmt e span).node s = .error error s := by
  simp only [Stmt.node, execute, bind, EStateM.bind, evaluate_of_error s hv]

theorem executeAll_of_ok {node : Node} {s s' : Store} (h : execute sink node s = .ok () s')
    (nodes : List Node) : executeAll sink (node :: nodes) s = executeAll sink nodes s' := by
  simp only [executeAll, bind, EStateM.bind, h]

theorem executeAll_of_error {node : Node} {s s' : Store} (h : execute sink node s = .error error s')
    (nodes : List Node) : executeAll sink (node :: nodes) s = .error error s' := by
  simp only [executeAll, bind, EStateM.bind, h]

end Eval

namespace Machine

/-! ### The machine beside the evaluator -/

/-- The machine some instructions further on, with another store. -/
def storing (m : Machine) (count : Nat) (store : Store) : Machine :=
  {m with store := store, ip := m.ip + count}

/-- Both backends go on from some statements, with equal stores, or both give up for
the same reason, with equal stores. -/
def Together (sink : Option Sink) (m : Machine) (code rest : List Instr)
    (executed : EStateM.Result EvalError Store Unit) : Prop :=
  (∃ store, executed = .ok () store ∧
    runThrough (.plain sink) (code ++ rest) m =
      runThrough (.plain sink) rest (m.storing code.length store)) ∨
  (∃ error merror m', executed = .error error m'.store ∧ SameError merror error ∧
    runThrough (.plain sink) (code ++ rest) m = .error merror m')

variable (sink : Option Sink)

/-- Where an expression stops the machine, its statement stops both backends. -/
theorem StopsInside.together {m : Machine} {code more rest : List Instr} {error : EvalError}
    (h : StopsInside sink m code (more ++ rest) error) :
    Together sink m (code ++ more) rest (.error error m.store) := by
  obtain ⟨k, above, instr, fault, _, hstop, hrun⟩ := h
  refine .inr ⟨error, _, m.ahead k above, rfl, .stop (m.ip + k) hstop, ?_⟩
  rw [List.append_assoc]
  exact hrun

/-- A statement that can be executed lets the machine through, with the store that it leads
to. -/
theorem runThrough_stmt_of_ok {s : Stmt} {m : Machine} {store : Store}
    (h : Eval.execute sink s.node m.store = .ok () store) (rest : List Instr) :
    runThrough (.plain sink) (s.code ++ rest) m =
      runThrough (.plain sink) rest (m.storing s.code.length store) := by
  cases s with
  | letStmt name e span =>
    cases hv : e.node.value m.store.bindings with
    | error error =>
      rw [Eval.execute_let_of_error sink m.store name span hv] at h
      cases h
    | ok value =>
      rw [Eval.execute_let sink m.store name span hv] at h
      cases h
      have hstack : (m.ahead e.code.length [value]).stack = value :: m.stack := rfl
      rw [Stmt.code, List.append_assoc, runThrough_code sink hv, List.singleton_append,
        runThrough_of_ok (step_store sink _ hstack)]
      simp only [ahead, storing, List.length_append, List.length_singleton, Int.natCast_add,
        Int.add_assoc]
      rfl
  | printStmt e span =>
    cases hv : e.node.value m.store.bindings with
    | error error =>
      rw [Eval.execute_print_of_error sink m.store span hv] at h
      cases h
    | ok value =>
      rw [Eval.execute_print sink m.store span hv] at h
      have hstack : (m.ahead e.code.length [value]).stack = value :: m.stack := rfl
      cases hprint : Store.print sink value m.store with
      | error refusal store =>
        simp only [Eval.print, hprint] at h
        cases h
      | ok _ store =>
        simp only [Eval.print, hprint] at h
        cases h
        rw [Stmt.code, List.append_assoc, runThrough_code sink hv, List.singleton_append,
          runThrough_of_ok (step_print sink _ hstack hprint)]
        simp only [ahead, storing, List.length_append, List.length_singleton, Int.natCast_add,
          Int.add_assoc]
        rfl

/-- Statements that can be executed let the machine through. -/
theorem runThrough_of_executeAll {program : Program} {m : Machine} {store : Store}
    (h : Eval.executeAll sink program.nodes m.store = .ok () store) (rest : List Instr) :
    runThrough (.plain sink) (program.code ++ rest) m =
      runThrough (.plain sink) rest (m.storing program.code.length store) := by
  induction program generalizing m with
  | nil =>
    cases h
    simp [Program.code, storing]
  | cons s others ih =>
    rw [Program.nodes_cons] at h
    rw [Program.code_cons]
    cases hexec : Eval.execute sink s.node m.store with
    | error error failed =>
      rw [Eval.executeAll_of_error sink hexec] at h
      cases h
    | ok _ next =>
      rw [Eval.executeAll_of_ok sink hexec] at h
      rw [List.append_assoc, runThrough_stmt_of_ok sink hexec, ih (m := m.storing _ next) h]
      simp only [storing, List.length_append, Int.natCast_add, Int.add_assoc]

theorem runThrough_stmt {s : Stmt} {m : Machine} {rest : List Instr} (hat : m.At (s.code ++ rest)) :
    Together sink m s.code rest (Eval.execute sink s.node m.store) := by
  cases hexec : Eval.execute sink s.node m.store with
  | ok _ store => exact .inl ⟨store, rfl, runThrough_stmt_of_ok sink hexec rest⟩
  | error error failed =>
    rw [← hexec]
    cases s with
    | letStmt name e span =>
      rw [Stmt.code, List.append_assoc] at hat
      cases hv : e.node.value m.store.bindings with
      | error error =>
        rw [Eval.execute_let_of_error sink m.store name span hv]
        exact (runThrough_code_of_error sink hv hat.left).together
      | ok value =>
        rw [Eval.execute_let sink m.store name span hv] at hexec
        cases hexec
    | printStmt e span =>
      rw [Stmt.code, List.append_assoc] at hat
      cases hv : e.node.value m.store.bindings with
      | error error =>
        rw [Eval.execute_print_of_error sink m.store span hv]
        exact (runThrough_code_of_error sink hv hat.left).together
      | ok value =>
        rw [Eval.execute_print sink m.store span hv] at hexec ⊢
        have hstack : (m.ahead e.code.length [value]).stack = value :: m.stack := rfl
        cases hprint : Store.print sink value m.store with
        | ok _ store =>
          simp only [Eval.print, hprint] at hexec
          cases hexec
        | error refusal store =>
          have hstep := step_print_refused sink _ hstack hprint
          refine .inr ⟨.refused refusal, _,
            {m.ahead e.code.length [value] with stack := m.stack, store := store}, ?_,
            .refused refusal, ?_⟩
          · simp only [Eval.print, hprint]
          · rw [Stmt.code, List.append_assoc, runThrough_code sink hv, List.singleton_append,
              runThrough_of_error hstep]

/-- The same for all statements of a program, one after the other. -/
theorem runThrough_program {program : Program} {m : Machine} {rest : List Instr}
    (hat : m.At (program.code ++ rest)) :
    Together sink m program.code rest (Eval.executeAll sink program.nodes m.store) := by
  induction program generalizing m with
  | nil => exact .inl ⟨m.store, rfl, by simp [Program.code, storing]⟩
  | cons s others ih =>
    rw [Program.code_cons, List.append_assoc] at hat
    rw [Program.code_cons, Program.nodes_cons]
    obtain ⟨store, hexec, hrun⟩ | ⟨error, merror, m', hexec, hsame, hrun⟩ :=
      runThrough_stmt sink hat
    · have hat' : (m.storing s.code.length store).At (Program.code others ++ rest) :=
        hat.passed rfl rfl
      rw [Eval.executeAll_of_ok sink hexec]
      obtain ⟨store', hexec', hrun'⟩ | ⟨error, merror, m', hexec', hsame, hrun'⟩ := ih hat'
      · refine .inl ⟨store', hexec', ?_⟩
        rw [List.append_assoc, hrun, hrun']
        simp only [storing, List.length_append, Int.natCast_add, Int.add_assoc]
      · refine .inr ⟨error, merror, m', hexec', hsame, ?_⟩
        rw [List.append_assoc, hrun, hrun']
    · rw [Eval.executeAll_of_error sink hexec]
      refine .inr ⟨error, merror, m', rfl, hsame, ?_⟩
      rw [List.append_assoc]
      exact hrun

end Machine

/-! ### Whole runs -/

/-- A run on the machine and a run of the evaluator that come to the same: both return the
values printed, and nothing is left on the stack, or both give up for the same reason. In
either case their stores are equal. -/
inductive SameOutcome : EStateM.Result MachineError Machine (Array Int) →
    EStateM.Result EvalError Store (Array Int) → Prop
  | returned (printed : Array Int) (m : Machine) : m.stack = [] →
    SameOutcome (.ok printed m) (.ok printed m.store)
  | raised {merror : MachineError} {error : EvalError} (m : Machine) : SameError merror error →
    SameOutcome (.error merror m) (.error error m.store)

theorem Machine.run_load (setup : Setup) (code : List Instr) :
    run setup (load code) =
      match runThrough setup code (load code) with
      | .ok _ m => .ok m.store.printed m
      | .error error m => .error error m := by
  have hrun := run_eq setup (load code)
  rw [(at_load code).left] at hrun
  exact hrun

theorem Eval.interpret_eq (sink : Option Sink) (nodes : List Node) (s : Store) :
    interpret sink nodes s =
      match executeAll sink nodes s with
      | .ok _ s => .ok s.printed s
      | .error error s => .error error s := by
  simp only [interpret, bind, EStateM.bind]
  cases executeAll sink nodes s <;> rfl

theorem sameOutcome_of_program (sink : Option Sink) (program : Program) :
    SameOutcome (Machine.run (.plain sink) (.load program.code))
      (Eval.interpret sink program.nodes ∅) := by
  have hat : (Machine.load program.code).At (program.code ++ []) := by
    rw [List.append_nil]
    exact Machine.at_load _
  rw [Machine.run_load, Eval.interpret_eq]
  have hstore : (Machine.load program.code).store = ∅ := rfl
  obtain ⟨store, hexec, hrun⟩ | ⟨error, merror, m, hexec, hsame, hrun⟩ :=
    Machine.runThrough_program sink hat
  · rw [List.append_nil] at hrun
    rw [hstore] at hexec
    rw [hexec, hrun]
    exact .returned _ ((Machine.load program.code).storing program.code.length store) rfl
  · rw [List.append_nil] at hrun
    rw [hstore] at hexec
    rw [hexec, hrun]
    exact .raised m hsame

/-! ### Reports -/

/-- Failures of the two backends that say the same. What a sink raises is passed on as it
is. -/
inductive SameFailure : Failure → Failure → Prop
  | unbound (detail detail' : String) :
    SameFailure (.diagnostic (.machine .unboundName detail))
      (.diagnostic (.evaluation .undefinedVariable detail'))
  | zeroDivisor (detail detail' : String) :
    SameFailure (.diagnostic (.machine .divisionByZero detail))
      (.diagnostic (.evaluation .divisionByZero detail'))
  | refused (refusal : Refusal) : SameFailure refusal.failure refusal.failure

/-- Reports of the two backends that say the same, with the same values delivered. -/
inductive SameReport : RunReport → RunReport → Prop
  | printed (values sunk : Array Int) : SameReport ⟨.ok values, sunk⟩ ⟨.ok values, sunk⟩
  | failed {failure failure' : Failure} (sunk : Array Int) : SameFailure failure failure' →
    SameReport ⟨.error failure, sunk⟩ ⟨.error failure', sunk⟩

theorem SameError.failure {merror : MachineError} {error : EvalError} (h : SameError merror error) :
    SameFailure merror.failure error.failure := by
  cases h with
  | refused refusal => exact .refused refusal
  | stop ip hstop =>
    cases hstop with
    | unbound name => exact .unbound _ _
    | zeroDivisor => exact .zeroDivisor _ _

theorem sameReport_of_program (sink : Option Sink) (program : Program) :
    SameReport (Backend.vm.run sink program) (Backend.tree.run sink program) := by
  rw [Backend.run, Backend.run, Program.generate_eq]
  dsimp only
  rw [runCode, runNodes]
  have hsame := sameOutcome_of_program sink program
  generalize Machine.run (.plain sink) (.load program.code) = vm at hsame ⊢
  generalize Eval.interpret sink program.nodes ∅ = tree at hsame ⊢
  cases hsame with
  | returned printed m => exact .printed printed m.store.sunk
  | raised m herror => exact .failed m.store.sunk herror.failure

theorem Backend.ofName?_name (backend : Backend) : ofName? backend.name = some backend := by
  cases backend <;> decide

theorem runText_name (text : String) (backend : Backend) (sink : Option Sink) :
    runText text backend.name sink =
      match readProgram text with
      | .error failure => .notRun failure
      | .ok program => backend.run sink program := by
  cases hread : readProgram text <;> simp only [runText, backend.ofName?_name, hread]

/-- On the machine, a text runs as the code of its program. -/
theorem runText_vm {text : String} {program : Program} (h : readProgram text = .ok program)
    (sink : Option Sink) : runText text "vm" sink = runCode (.plain sink) program.code := by
  have hrun := runText_name text .vm sink
  simp only [h, Backend.run, Program.generate_eq] at hrun
  exact hrun

/-- On the evaluator, a text runs as the statements of its program. -/
theorem runText_tree {text : String} {program : Program} (h : readProgram text = .ok program)
    (sink : Option Sink) : runText text "tree" sink = runNodes sink program.nodes := by
  have hrun := runText_name text .tree sink
  rw [h] at hrun
  exact hrun

/-- **The backends agree**, on every program and with every sink. On a text they agree too:
it is refused as it is read, by the same diagnostic and before anything is delivered, or
the two runs report the same. -/
theorem backends_agree (sink : Option Sink) :
    (∀ program : Program, ∃ code, program.generate = .ok code ∧
      SameOutcome (Machine.run (.plain sink) (.load code))
        (Eval.interpret sink program.nodes ∅)) ∧
    ∀ text : String,
      (∃ d, Diagnostic.OfReading d ∧ readProgram text = .error (.diagnostic d) ∧
        runText text "vm" sink = ⟨.error (.diagnostic d), #[]⟩ ∧
        runText text "tree" sink = ⟨.error (.diagnostic d), #[]⟩) ∨
      ∃ program, readProgram text = .ok program ∧
        SameReport (runText text "vm" sink) (runText text "tree" sink) := by
  constructor
  · intro program
    exact ⟨program.code, program.generate_eq, sameOutcome_of_program sink program⟩
  · intro text
    have hvm : Backend.ofName? "vm" = some .vm := by decide
    have htree : Backend.ofName? "tree" = some .tree := by decide
    cases hread : readProgram text with
    | error failure =>
      obtain ⟨d, rfl, hd⟩ := readProgram_eq_error hread
      refine .inl ⟨d, hd, rfl, ?_, ?_⟩
      · simp only [runText, hvm, hread]
        rfl
      · simp only [runText, htree, hread]
        rfl
    | ok program =>
      refine .inr ⟨program, rfl, ?_⟩
      simp only [runText, hvm, htree, hread]
      exact sameReport_of_program sink program

end LetPrint
