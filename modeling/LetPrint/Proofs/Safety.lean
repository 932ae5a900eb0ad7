import LetPrint.Proofs.ScopedRuns
import LetPrint.Proofs.StackHeight

/-! What can go wrong in a program that was read.

A run on either backend is finished, or it ends at the first statement that refers to itself
or divides by zero, in the code of that statement (`ending`). `runs_safely` says so for every
text that is read, in terms of what is reported, and that two values are the most the machine
ever holds. -/
namespace LetPrint

/-! ### The machine -/

namespace Machine
variable (sink : Option Sink)

/-- A statement without a value stops the machine. -/
theorem stopsInside_stmt {s : Stmt} {m : Machine} {rest : List Instr} {error : EvalError}
    (hv : s.value.node.value m.store.bindings = .error error) (hat : m.At (s.code ++ rest)) :
    StopsInside sink m s.code rest error := by
  rw [s.code_eq, List.append_assoc] at hat
  rw [s.code_eq]
  exact (runThrough_code_of_error sink hv hat.left).extend

theorem at_code (code : List Instr) : (load code).At (code ++ []) := by
  rw [List.append_nil]
  exact at_load code

theorem starts_load (setup : Setup) (code : List Instr) :
    starts setup (load code) = startsThrough setup (load code) (code ++ []) := by
  rw [starts, (at_code code).left]

/-- **Two values at most** are on the stack when an instruction starts. -/
theorem stack_le_of_starts {program : Program} {m : Machine}
    (hflat : ∀ s ∈ program, s.value.IsFlat)
    (h : m ∈ starts (.plain sink) (load program.code)) : m.stack.length ≤ 2 := by
  rw [starts_load] at h
  obtain ⟨before, s, after, store, rfl, _, hinside⟩ | ⟨store, _, h⟩ := mem_starts_program sink h
  · cases hinside with
    | @ahead k above _ habove _ =>
      have hstack : (((load (Program.code (before ++ s :: after))).storing
          before.code.length store).ahead k above).stack = above := List.append_nil above
      rw [hstack]
      exact Nat.le_trans habove (hflat s (by simp)).height_le
  · exact absurd h List.not_mem_nil

/-- **No value** is on the stack when a statement starts. -/
theorem stack_eq_of_starts {program before after : Program} {m : Machine}
    (h : m ∈ starts (.plain sink) (load program.code)) (hsplit : program = before ++ after)
    (hip : m.ip = before.code.length) : m.stack = [] := by
  rw [starts_load] at h
  obtain ⟨before', s, after', store, hsplit', _, hinside⟩ | ⟨store, _, h⟩ :=
    mem_starts_program sink h
  · cases hinside with
    | @ahead k above hk _ hzero =>
      have hstack : (((load program.code).storing before'.code.length store).ahead k
        above).stack = above := List.append_nil above
      have hplace : before'.code.length + k = before.code.length := by
        simp only [Machine.ahead, storing, load] at hip
        omega
      rw [hstack]
      apply hzero
      -- Either statement list is the beginning of the other.
      rw [hsplit] at hsplit'
      rcases List.append_eq_append_iff.1 hsplit' with ⟨between, rfl, _⟩ | ⟨between, rfl, hnext⟩
      · simp only [Program.code_append, List.length_append] at hplace
        omega
      · rcases List.cons_eq_append_iff.1 hnext with ⟨rfl, _⟩ | ⟨rest, rfl, _⟩
        · simpa [Program.code] using hplace
        · simp only [Program.code_append, Program.code_cons, List.length_append] at hplace
          omega
  · exact absurd h List.not_mem_nil

end Machine

/-! ### Whole runs -/

/-- A machine that has stopped inside the code of a statement, after the statements before
it were executed. -/
def StoppedAt (sink : Option Sink) (program : Program) (s : Stmt) (m : Machine) : Prop :=
  ∃ (before after : Program) (k : Nat), program = before ++ s :: after ∧
    Eval.executeAll sink before.nodes ∅ = .ok () m.store ∧ k < s.code.length ∧
      m.ip = (before.code.length + k : Nat) ∧ m.stack.length ≤ 2

/-- How the runs of a program on the machine and on the evaluator end. -/
inductive Ending (sink : Option Sink) (program : Program) :
    EStateM.Result MachineError Machine (Array Int) →
      EStateM.Result EvalError Store (Array Int) → Prop
  /-- Nothing failed. -/
  | finished {m : Machine} : m.stack = [] → m.store.bindings.names = program.declared →
    m.store.printed.size = program.countP Stmt.isPrint →
      Ending sink program (.ok m.store.printed m) (.ok m.store.printed m.store)
  /-- A statement declares a name and uses it. -/
  | selfReference {s : Stmt} {name : String} {m : Machine} : StoppedAt sink program s m →
    name ∈ s.declared → name ∈ s.value.names →
      Ending sink program
        (.error (.fault (.unbound name) m.ip (some ⟨.push, some (.reference name)⟩)) m)
        (.error (.unbound name) m.store)
  /-- A statement divides by zero, and all its names are bound. -/
  | zeroDivisor {s : Stmt} {m : Machine} : StoppedAt sink program s m → ¬ s.IsSelfReference →
    s.value.DividesByZero m.store.bindings →
      Ending sink program (.error (.fault .divisionByZero m.ip (some ⟨.div, none⟩)) m)
        (.error .divisionByZero m.store)

section Endings
variable {sink : Option Sink} {program : Program}

/-- Where the value of a statement is missing, the machine stops. -/
theorem stoppedAt_of_error {before after : Program} {s : Stmt} {store : Store} {error : EvalError}
    (hflat : ∀ s ∈ program, s.value.IsFlat) (hsplit : program = before ++ s :: after)
    (hbefore : Eval.executeAll sink before.nodes ∅ = .ok () store)
    (hv : s.value.node.value store.bindings = .error error) :
    ∃ m instr fault, StoppedAt sink program s m ∧ m.store = store ∧
      Machine.SameStop instr fault error ∧
        Machine.run (.plain sink) (.load program.code) =
          .error (.fault fault m.ip (some instr)) m := by
  have hcode : program.code = before.code ++ (s.code ++ Program.code after) := by
    rw [hsplit, Program.code_append, Program.code_cons]
  have hat : (Machine.load program.code).At (before.code ++ (s.code ++ Program.code after)) := by
    rw [← hcode]
    exact Machine.at_load _
  have hat' : ((Machine.load program.code).storing before.code.length store).At
      (s.code ++ Program.code after) := hat.passed rfl rfl
  obtain ⟨k, above, instr, fault, hk, hstop, hrun⟩ :=
    Machine.stopsInside_stmt sink hv hat'
  rw [← Machine.runThrough_of_executeAll (m := .load program.code) sink hbefore, ← hcode] at hrun
  refine ⟨((Machine.load program.code).storing before.code.length store).ahead k above, instr,
    fault, ⟨before, after, k, hsplit, hbefore, hk, ?_, ?_⟩, rfl, hstop, ?_⟩
  · simp only [Machine.ahead, Machine.storing, Machine.load]
    omega
  · obtain ⟨start, hstart, hsuffix⟩ := Machine.suffix_of_runThrough_error hrun
    have hle : start.stack.length ≤ 2 := by
      refine Machine.stack_le_of_starts sink hflat ?_
      rw [Machine.starts, (Machine.at_load _).left]
      exact hstart
    exact Nat.le_trans hsuffix.length_le hle
  · rw [Machine.run_load, hrun]
    rfl

/-- **Every run of a well-formed program ends in one of three ways.** -/
theorem ending (hsink : ∀ take ∈ sink, take.TakesAll) (h : WellFormed program) :
    Ending sink program (Machine.run (.plain sink) (.load program.code))
      (Eval.interpret sink program.nodes ∅) := by
  rw [Eval.interpret_eq]
  cases hexec : Eval.executeAll sink program.nodes ∅ with
  | ok _ store =>
    rw [← List.append_nil program] at h
    obtain ⟨hnames, hprinted, _⟩ := h.invariant hsink hexec
    have hrun := Machine.runThrough_of_executeAll (m := .load program.code) sink hexec []
    rw [List.append_nil] at hrun
    rw [Machine.run_load, hrun]
    exact Ending.finished (m := (Machine.load program.code).storing program.code.length store)
      rfl hnames hprinted
  | error error failed =>
    obtain ⟨before, after, s, store, rfl, hbefore, hfails⟩ := exists_firstFailing hexec
    have hcomes := h.comes hsink hbefore
    rw [hfails] at hcomes
    cases hcomes with
    | selfReference hdeclared hused hv =>
      obtain ⟨m, instr, fault, hstopped, rfl, hstop, hrun⟩ :=
        stoppedAt_of_error h.isFlat rfl hbefore hv
      cases hstop
      rw [hrun]
      exact .selfReference hstopped hdeclared hused
    | zeroDivisor hself hzero hv =>
      obtain ⟨m, instr, fault, hstopped, rfl, hstop, hrun⟩ :=
        stoppedAt_of_error h.isFlat rfl hbefore hv
      cases hstop
      rw [hrun]
      exact .zeroDivisor hstopped hself hzero

/-- **A name is missing exactly if the first statement to fail refers to itself.** -/
theorem interpret_unbound_iff (hsink : ∀ take ∈ sink, take.TakesAll) (h : WellFormed program) :
    (∃ name store, Eval.interpret sink program.nodes ∅ = .error (.unbound name) store) ↔
      ∃ s, FirstFailing sink program s ∧ s.IsSelfReference := by
  rw [Eval.interpret_eq]
  constructor
  · rintro ⟨name, store, hrun⟩
    cases hexec : Eval.executeAll sink program.nodes ∅ with
    | ok _ finished =>
      rw [hexec] at hrun
      cases hrun
    | error error failed =>
      rw [hexec] at hrun
      cases hrun
      obtain ⟨before, after, s, started, hsplit, hbefore, hfailed⟩ := exists_firstFailing hexec
      have hwell : WellFormed (before ++ s :: after) := hsplit ▸ h
      have hcomes := hwell.comes hsink hbefore
      rw [hfailed] at hcomes
      cases hcomes with
      | selfReference hdeclared hused =>
        exact ⟨s, ⟨before, after, _, _, _, hsplit, hbefore, hfailed⟩, name, hdeclared, hused⟩
  · rintro ⟨s, ⟨before, after, store, failed, error, hsplit, hbefore, hfailed⟩, hself⟩
    have hwell : WellFormed (before ++ s :: after) := hsplit ▸ h
    have hcomes := hwell.comes hsink hbefore
    have hexec : Eval.executeAll sink program.nodes ∅ = .error error failed := by
      rw [hsplit, Program.nodes_append, Program.nodes_cons]
      exact (Eval.executeAll_append_of_ok hbefore _).trans (Eval.executeAll_of_error sink hfailed _)
    rw [hfailed] at hcomes
    rw [hexec]
    cases hcomes with
    | selfReference => exact ⟨_, _, rfl⟩
    | zeroDivisor hclean => exact absurd hself hclean

end Endings

/-! ### Texts -/

/-- A report of a diagnostic, whatever its particulars. -/
def RunReport.FailsWith (report : RunReport) (kind : String → Diagnostic) : Prop :=
  ∃ detail, report.result = .error (.diagnostic (kind detail))

/-- The result of a run without the state that it ends in. -/
def resultOf {ε σ α : Type} (failureOf : ε → Failure) : EStateM.Result ε σ α → Except Failure α
  | .ok value _ => .ok value
  | .error error _ => .error (failureOf error)

theorem runCode_result (setup : Machine.Setup) (code : List Instr) :
    (runCode setup code).result =
      resultOf MachineError.failure (Machine.run setup (.load code)) := by
  rw [runCode]
  cases Machine.run setup (.load code) <;> rfl

theorem runNodes_result (sink : Option Sink) (nodes : List Node) :
    (runNodes sink nodes).result = resultOf EvalError.failure (Eval.interpret sink nodes ∅) := by
  rw [runNodes]
  cases Eval.interpret sink nodes ∅ <;> rfl

/-- What the reports of two runs say: why they fail if they do, and when a name is missing. -/
structure Reports (vm tree : RunReport) (unbound : Prop) : Prop where
  vm_fails : ∀ failure, vm.result = .error failure →
    vm.FailsWith (.machine .unboundName) ∨ vm.FailsWith (.machine .divisionByZero)
  tree_fails : ∀ failure, tree.result = .error failure →
    tree.FailsWith (.evaluation .undefinedVariable) ∨ tree.FailsWith (.evaluation .divisionByZero)
  vm_unbound_iff : vm.FailsWith (.machine .unboundName) ↔ unbound
  tree_unbound_iff : tree.FailsWith (.evaluation .undefinedVariable) ↔ unbound

theorem Ending.reports {sink : Option Sink} {program : Program} {vm tree : RunReport}
    {vmRun : EStateM.Result MachineError Machine (Array Int)}
    {treeRun : EStateM.Result EvalError Store (Array Int)} (h : Ending sink program vmRun treeRun)
    (hvm : vm.result = resultOf MachineError.failure vmRun)
    (htree : tree.result = resultOf EvalError.failure treeRun) :
    Reports vm tree (∃ name store, treeRun = .error (.unbound name) store) := by
  cases h with
  | @finished m =>
    refine ⟨?_, ?_, ?_, ?_⟩ <;> simp [RunReport.FailsWith, hvm, htree, resultOf]
  | @selfReference s name m =>
    have hvm' : vm.FailsWith (.machine .unboundName) := ⟨_, hvm⟩
    have htree' : tree.FailsWith (.evaluation .undefinedVariable) := ⟨_, htree⟩
    exact ⟨fun _ _ => .inl hvm', fun _ _ => .inl htree', iff_of_true hvm' ⟨name, m.store, rfl⟩,
      iff_of_true htree' ⟨name, m.store, rfl⟩⟩
  | @zeroDivisor s m =>
    have hvm' : vm.FailsWith (.machine .divisionByZero) := ⟨_, hvm⟩
    have htree' : tree.FailsWith (.evaluation .divisionByZero) := ⟨_, htree⟩
    obtain ⟨detail, hvm⟩ := hvm'
    obtain ⟨detail', htree⟩ := htree'
    refine ⟨fun _ _ => .inr ⟨detail, hvm⟩, fun _ _ => .inr ⟨detail', htree⟩, ?_, ?_⟩
    · simp [RunReport.FailsWith, hvm]
    · simp [RunReport.FailsWith, htree]

/-- A run on either backend fails with a diagnostic, if it fails. -/
theorem diagnostic_of_run {sink : Option Sink} {program : Program} {failure : Failure}
    (hsink : ∀ take ∈ sink, take.TakesAll) (hwell : WellFormed program) (backend : Backend)
    (h : (backend.run sink program).result = .error failure) : ∃ d, failure = .diagnostic d := by
  have hcode : Backend.vm.run sink program = runCode (.plain sink) program.code := by
    simp only [Backend.run, Program.generate_eq]
  have hreports := (ending hsink hwell).reports (runCode_result (.plain sink) program.code)
    (runNodes_result sink program.nodes)
  have hfound : ∀ {report : RunReport} {kind : String → Diagnostic}, report.FailsWith kind →
      report.result = .error failure → ∃ d, failure = .diagnostic d := by
    rintro report kind ⟨detail, hdetail⟩ hfailure
    rw [hdetail] at hfailure
    cases hfailure
    exact ⟨kind detail, rfl⟩
  cases backend with
  | vm =>
    rw [hcode] at h
    exact (hreports.vm_fails failure h).elim (hfound · h) (hfound · h)
  | tree => exact (hreports.tree_fails failure h).elim (hfound · h) (hfound · h)

/-- What can be relied on when a program is run on either backend. -/
structure RunsSafely (sink : Option Sink) (text : String) (program : Program) : Prop where
  /-- The program can be translated. -/
  compiles : compileText text = .ok program.code
  /-- Whenever an instruction starts, at most two values are on the stack. -/
  stack_le : ∀ m ∈ Machine.starts (.plain sink) (.load program.code), m.stack.length ≤ 2
  /-- It has none where a statement starts. -/
  stack_eq : ∀ m ∈ Machine.starts (.plain sink) (.load program.code),
    ∀ before after : Program, program = before ++ after → m.ip = before.code.length →
      m.stack = []
  /-- A print statement finds all its names bound. -/
  print_bound : ∀ (before after : Program) (value : Expr) (span : Span) (store : Store),
    program = before ++ .printStmt value span :: after →
      Eval.executeAll sink before.nodes ∅ = .ok () store →
        ∀ n ∈ value.names, n ∈ store.bindings.names
  /-- The runs are finished, or end at a self-reference or a division by zero. -/
  ending : Ending sink program (Machine.run (.plain sink) (.load program.code))
    (Eval.interpret sink program.nodes ∅)
  /-- They fail for a name without a value, if the first statement to fail refers to itself,
  and otherwise for a division by zero. -/
  reports : Reports (runText text "vm" sink) (runText text "tree" sink)
    (∃ s, FirstFailing sink program s ∧ s.IsSelfReference)

/-- **A text that is read runs safely**, with any sink that refuses nothing. -/
theorem runs_safely {text : String} {program : Program} {sink : Option Sink}
    (hread : readProgram text = .ok program) (hsink : ∀ take ∈ sink, take.TakesAll) :
    RunsSafely sink text program := by
  have hwell := wellFormed_of_readProgram hread
  have hending := ending hsink hwell
  refine ⟨compileText_eq_ok.2 ⟨program, hread, rfl⟩, ?_, ?_, ?_, hending, ?_⟩
  · exact fun m hm => Machine.stack_le_of_starts sink hwell.isFlat hm
  · exact fun m hm before after hsplit hip => Machine.stack_eq_of_starts sink hm hsplit hip
  · rintro before after value span store rfl hbefore
    obtain ⟨_, _, hscoped⟩ := hwell.invariant hsink hbefore
    obtain ⟨⟩ | ⟨_, hnames, _⟩ := hscoped
    rw [Stmt.declared, List.append_nil] at hnames
    exact hnames
  · rw [← interpret_unbound_iff hsink hwell, runText_vm hread, runText_tree hread]
    exact hending.reports (runCode_result _ _) (runNodes_result _ _)

theorem Sink.takesAll_collecting : collecting.TakesAll :=
  fun _ _ => rfl

/-- A name that is used while it is declared, as a divisor. -/
def ownDivisorText : String :=
  "let x = 1; let y = x / y;"

def ownDivisorProgram : Program := [
  .letStmt ⟨.ident, "x", ⟨4, 5⟩⟩ (.literal 1 ⟨8, 9⟩) ⟨0, 10⟩,
  .letStmt ⟨.ident, "y", ⟨15, 16⟩⟩
    (.binary (.var ⟨.ident, "x", ⟨19, 20⟩⟩ ⟨19, 20⟩) .div (.var ⟨.ident, "y", ⟨23, 24⟩⟩ ⟨23, 24⟩)
      ⟨19, 24⟩)
    ⟨11, 25⟩]

theorem runs_safely_ownDivisorText :
    readProgram ownDivisorText = .ok ownDivisorProgram ∧
      (∀ take ∈ some Sink.collecting, take.TakesAll) ∧
        RunsSafely (some .collecting) ownDivisorText ownDivisorProgram ∧
          ∃ s, FirstFailing (some .collecting) ownDivisorProgram s ∧ s.IsSelfReference := by
  have hread : readProgram ownDivisorText = .ok ownDivisorProgram := by decide +kernel
  have hsink : ∀ take ∈ some Sink.collecting, take.TakesAll := by
    intro take htake
    cases htake
    exact Sink.takesAll_collecting
  have hsafe := runs_safely hread hsink
  have hfails : (runText ownDivisorText "vm" (some .collecting)).FailsWith
      (.machine .unboundName) :=
    ⟨"y has no value (ip=3, instr=PUSH y)", by decide +kernel⟩
  exact ⟨hread, hsink, hsafe, hsafe.reports.vm_unbound_iff.1 hfails⟩

end LetPrint
