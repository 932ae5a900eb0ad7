import LetPrint.Proofs.Safety
import LetPrint.Proofs.StraightLine
import LetPrint.Proofs.Wording

/-! How runs fail, whatever is run.

Instructions and trees put together by hand may fail in many more ways than those of a program.
A machine fails with a fault of the instruction that it is at, and with no other
(`faults_perform`, `exists_fault_of_runThrough`); the evaluator fails with an error that shows
nothing but what is in the tree (`error_of_executeAll`). Such a failure is reported by a diagnostic,
unless the message would have to show an integer that is too long: then there is no room for
it, and the failure says only that (`run_time_endings`). -/
namespace LetPrint
open Text

/-! ### Faults of instructions -/

/-- The faults that an instruction can be the cause of. -/
inductive FaultOf (instr : Instr) : MachineFault → Prop
  | emptyStack : FaultOf instr .emptyStack
  | unbound {name : String} : instr.arg = some (.reference name) → FaultOf instr (.unbound name)
  | badOperand : FaultOf instr (.badOperand instr.arg)
  | badTarget : FaultOf instr (.badTarget instr.arg)
  | divisionByZero : FaultOf instr .divisionByZero
  | noHandler : FaultOf instr (.noHandler instr.op)

theorem fits_argumentPhrase (i : Instr) :
    (MachineFault.argumentPhrase i.arg).Fits ↔ ∀ n ∈ i.integers, Decimal.fits n = true := by
  obtain ⟨op, arg⟩ := i
  cases arg with
  | none => simp [MachineFault.argumentPhrase, Instr.integers]
  | some a => exact a.fits_inspected

/-- **The message of a fault fits exactly if its instruction does.** -/
theorem FaultOf.fits_phrase {instr : Instr} {fault : MachineFault} (h : FaultOf instr fault)
    (ip : Int) :
    (MachineError.phrase fault ip instr).Fits ↔ ∀ n ∈ instr.integers, Decimal.fits n = true := by
  have hfault : (∀ n ∈ instr.integers, Decimal.fits n = true) → fault.phrase.Fits := by
    intro hfits
    cases h with
    | badOperand | badTarget =>
      simp [MachineFault.phrase, (fits_argumentPhrase instr).2 hfits]
    | noHandler => simp [MachineFault.phrase, instr.op.fits_inspected]
    | emptyStack | unbound | divisionByZero => simp [MachineFault.phrase]
  rw [← instr.fits_phrase] at hfault ⊢
  simpa [MachineError.phrase] using hfault

/-- **A fault is reported by its message**, if there is room for the integers of its instruction. -/
theorem FaultOf.failure_eq {instr : Instr} {fault : MachineFault} (h : FaultOf instr fault)
    (ip : Int) :
    (MachineError.fault fault ip (some instr)).failure =
      if ∀ n ∈ instr.integers, Decimal.fits n = true then
        .diagnostic (.machine fault.code (MachineError.phrase fault ip instr).write)
      else .integerTooLong := by
  rw [MachineError.failure]
  by_cases hfits : ∀ n ∈ instr.integers, Decimal.fits n = true
  · rw [if_pos hfits, Phrase.writeShort?_of_fits ((h.fits_phrase ip).2 hfits)]
  · rw [if_neg hfits, Phrase.writeShort?_of_not_fits fun hphrase =>
      hfits ((h.fits_phrase ip).1 hphrase)]

namespace Machine

/-- What can end a step of a machine that is about to carry out an instruction. -/
inductive ErrorOf (setup : Setup) (instr : Instr) (m : Machine) : MachineError → Prop
  | fault {fault : MachineFault} : FaultOf instr fault →
    ErrorOf setup instr m (.fault fault m.ip m.next)
  | refused {take : Sink} {taken : Array Int} {value : Int} {refusal : Refusal} :
    setup.sink = some take → take taken value = .error refusal →
    ErrorOf setup instr m (.refused refusal)

/-- If the operation fails, then as the instruction can fail. -/
def Faults {α : Type} (setup : Setup) (instr : Instr) (f : MachineStep α) : Prop :=
  ∀ m error m', f m = .error error m' → ErrorOf setup instr m error

section Operations
variable {α β : Type} {setup : Setup} {instr : Instr}

theorem Keeps.next {m m' : Machine} (h : Keeps m m') : m'.next = m.next := by
  rw [Machine.next, Machine.next, left, left, h.code, h.ip]

theorem ErrorOf.of_keeps {m m' : Machine} {error : MachineError} (hkeeps : Keeps m m')
    (h : ErrorOf setup instr m' error) : ErrorOf setup instr m error := by
  cases h with
  | fault h =>
    rw [hkeeps.ip, hkeeps.next]
    exact .fault h
  | refused hsink hrefuses => exact .refused hsink hrefuses

theorem Faults.bind {f : MachineStep α} {g : α → MachineStep β} (hframes : Frames f)
    (hf : Faults setup instr f) (hg : ∀ a, Faults setup instr (g a)) :
    Faults setup instr (f >>= g) := by
  intro m error m' h
  simp only [Bind.bind, EStateM.bind] at h
  cases hrun : f m with
  | error failure failed =>
    rw [hrun] at h
    cases h
    exact hf m _ _ hrun
  | ok a between =>
    rw [hrun] at h
    have hkeeps := hframes m
    rw [hrun] at hkeeps
    exact (hg a between error m' h).of_keeps hkeeps

theorem faults_get : Faults setup instr (get : MachineStep Machine) :=
  fun _ _ _ h => nomatch h

theorem faults_fail {fault : MachineFault} (h : FaultOf instr fault) :
    Faults setup instr (fail fault : MachineStep α) := by
  intro m error m' hfail
  cases hfail
  exact .fault h

theorem faults_push (value : Int) : Faults setup instr (push value) :=
  fun _ _ _ h => nomatch h

theorem faults_pop : Faults setup instr pop := by
  intro m error m' h
  rw [pop] at h
  split at h
  · exact faults_fail .emptyStack m error m' h
  · cases h

theorem faults_pushArgument : Faults setup instr (pushArgument instr.arg) := by
  cases harg : instr.arg with
  | none => exact faults_fail (harg ▸ .badOperand)
  | some arg =>
    cases arg with
    | immediate value => exact faults_push value
    | text name => exact faults_fail (harg ▸ .badOperand)
    | reference name =>
      refine faults_get.bind frames_get fun m => ?_
      cases m.store.bindings.find? name with
      | none => exact faults_fail (.unbound harg)
      | some value => exact faults_push value

theorem faults_storeArgument : Faults setup instr (storeArgument instr.arg) := by
  cases harg : instr.arg with
  | none => exact faults_fail (harg ▸ .badTarget)
  | some arg =>
    cases arg with
    | immediate value => exact faults_fail (harg ▸ .badTarget)
    | reference name => exact faults_fail (harg ▸ .badTarget)
    | text name => exact faults_pop.bind frames_pop fun value m error m' h => nomatch h

theorem faults_operate (op : BinOp) : Faults setup instr (operate op) := by
  refine faults_pop.bind frames_pop fun right => faults_pop.bind frames_pop fun left => ?_
  cases op.apply left right with
  | none => exact faults_fail .divisionByZero
  | some value => exact faults_push value

theorem refuses_of_print {sink : Option Sink} {value : Int} {store store' : Store}
    {refusal : Refusal} (h : Store.print sink value store = .error refusal store') :
    ∃ take, sink = some take ∧ take store.sunk value = .error refusal := by
  cases sink with
  | none => cases h
  | some take =>
    cases htake : take store.sunk value with
    | ok _ =>
      simp only [Store.print, htake] at h
      cases h
    | error other =>
      simp only [Store.print, htake] at h
      cases h
      exact ⟨take, rfl, htake⟩

theorem faults_printTop : Faults setup instr (printTop setup.sink) := by
  refine faults_pop.bind frames_pop fun value m error m' h => ?_
  cases hprint : Store.print setup.sink value m.store with
  | ok _ store =>
    rw [hprint] at h
    cases h
  | error refusal store =>
    rw [hprint] at h
    cases h
    obtain ⟨take, hsink, hrefuses⟩ := refuses_of_print hprint
    exact .refused hsink hrefuses

/-- **An instruction fails with a fault of its own**, or because the sink refuses a value. -/
theorem faults_perform : Faults setup instr (perform setup instr) := by
  rw [perform]
  split
  · exact faults_fail .noHandler
  · cases instr.op with
    | push => exact faults_pushArgument
    | store => exact faults_storeArgument
    | add | sub | mul | div => exact faults_operate _
    | print => exact faults_printTop

end Operations

/-! ### Whole runs of a machine -/

section Runs
variable {setup : Setup} {m m' : Machine} {code : List Instr} {error : MachineError}

/-- A run fails as one of its instructions can fail, at that instruction. -/
theorem exists_fault_of_runThrough (hat : m.At code)
    (h : runThrough setup code m = .error error m') :
    ∃ instr ∈ code, ∃ start, start.next = some instr ∧ ErrorOf setup instr start error := by
  induction code generalizing m with
  | nil => cases h
  | cons instr rest ih =>
    cases hperform : perform setup instr m with
    | error failure failed =>
      rw [runThrough_of_error (step_of_error hperform)] at h
      cases h
      exact ⟨instr, List.mem_cons_self .., m, hat.next, faults_perform m _ _ hperform⟩
    | ok _ performed =>
      have hstep := step_of_ok hperform
      rw [runThrough_of_ok hstep] at h
      obtain ⟨failing, hmem, hfails⟩ := ih ((stepsTo_of_step hstep).at hat) h
      exact ⟨failing, List.mem_cons_of_mem instr hmem, hfails⟩

end Runs

end Machine

/-- How a run of instructions ends, and what is reported. It returns; or an instruction is at
fault, and the report is its message if there is room for it, and otherwise that there is none;
or the sink has refused a value. -/
inductive MachineEnding (setup : Machine.Setup) (code : List Instr) :
    EStateM.Result MachineError Machine (Array Int) → Except Failure (Array Int) → Prop
  | returned (values : Array Int) (m : Machine) :
    MachineEnding setup code (.ok values m) (.ok values)
  | reported {instr : Instr} {fault : MachineFault} {ip : Int} {m : Machine} : instr ∈ code →
    FaultOf instr fault → (∀ n ∈ instr.integers, Decimal.fits n = true) →
      MachineEnding setup code (.error (.fault fault ip (some instr)) m)
        (.error (.diagnostic (.machine fault.code (MachineError.phrase fault ip instr).write)))
  | noRoom {instr : Instr} {fault : MachineFault} {ip : Int} {m : Machine} {n : Int} :
    instr ∈ code → FaultOf instr fault → n ∈ instr.integers → ¬ Decimal.fits n = true →
      MachineEnding setup code (.error (.fault fault ip (some instr)) m) (.error .integerTooLong)
  | refused {take : Sink} {taken : Array Int} {value : Int} {refusal : Refusal} {m : Machine} :
    setup.sink = some take → take taken value = .error refusal →
      MachineEnding setup code (.error (.refused refusal) m) (.error refusal.failure)

/-- **Every run of instructions ends so.** -/
theorem machineEnding (setup : Machine.Setup) (code : List Instr) :
    MachineEnding setup code (Machine.run setup (.load code)) (runCode setup code).result := by
  rw [runCode_result, Machine.run_load]
  cases hrun : Machine.runThrough setup code (.load code) with
  | ok _ m => exact .returned _ m
  | error error m =>
    obtain ⟨instr, hmem, start, hnext, herror⟩ :=
      Machine.exists_fault_of_runThrough (Machine.at_load code) hrun
    cases herror with
    | refused hsink hrefuses => exact .refused hsink hrefuses
    | @fault fault hfault =>
      rw [hnext, resultOf, hfault.failure_eq]
      by_cases hfits : ∀ n ∈ instr.integers, Decimal.fits n = true
      · rw [if_pos hfits]
        exact .reported hmem hfault hfits
      · rw [if_neg hfits]
        push Not at hfits
        obtain ⟨n, hn, hlong⟩ := hfits
        exact .noRoom hmem hfault hn hlong

/-! ### Errors of the evaluator -/

/-- The integers that an error shows: those of a node that it names. -/
def EvalError.integers : EvalError → List Int
  | unknownStmt node => node.integers
  | unknownExpr node => node.integers
  | _ => []

/-- What can end the evaluation of a tree with some integers in it. -/
inductive ErrorAmong (sink : Option Sink) (integers : List Int) : EvalError → Prop
  | unbound (name : String) : ErrorAmong sink integers (.unbound name)
  | unknownOperator (text : String) : ErrorAmong sink integers (.unknownOperator text)
  | divisionByZero : ErrorAmong sink integers .divisionByZero
  | unknownStmt {node : Node} : node.integers ⊆ integers →
    ErrorAmong sink integers (.unknownStmt node)
  | unknownExpr {node : Node} : node.integers ⊆ integers →
    ErrorAmong sink integers (.unknownExpr node)
  | refused {take : Sink} {taken : Array Int} {value : Int} {refusal : Refusal} :
    sink = some take → take taken value = .error refusal →
    ErrorAmong sink integers (.refused refusal)

section Errors
variable {sink : Option Sink} {integers more : List Int} {error : EvalError} {store store' : Store}

theorem ErrorAmong.mono (h : ErrorAmong sink integers error) (hmore : integers ⊆ more) :
    ErrorAmong sink more error := by
  cases h with
  | unbound name => exact .unbound name
  | unknownOperator text => exact .unknownOperator text
  | divisionByZero => exact .divisionByZero
  | unknownStmt h => exact .unknownStmt (List.Subset.trans h hmore)
  | unknownExpr h => exact .unknownExpr (List.Subset.trans h hmore)
  | refused hsink hrefuses => exact .refused hsink hrefuses

/-- An expression fails for something that is in it. -/
theorem Node.error_of_value {bindings : Bindings Int} : (node : Node) → {error : EvalError} →
    node.value bindings = .error error → ErrorAmong sink node.integers error
  | literal .., _, h => nomatch h
  | var name span, _, h => by
    simp only [value] at h
    split at h
    · cases h
    · cases h
      exact .unbound name.raw
  | binary left op right span, _, h => by
    have hleft : left.integers ⊆ (binary left op right span).integers := by
      simp [integers, List.append_assoc]
    have hright : right.integers ⊆ (binary left op right span).integers := by
      simp [integers, List.append_assoc]
    simp only [value, bind, Except.bind] at h
    split at h
    · next hvalue =>
      cases h
      exact (error_of_value left hvalue).mono hleft
    split at h
    · next hvalue =>
      cases h
      exact (error_of_value right hvalue).mono hright
    · cases op with
      | other text =>
        cases h
        exact .unknownOperator text
      | known op =>
        dsimp only at h
        split at h
        · cases h
        · cases h
          exact .divisionByZero
  | letStmt .., _, h | printStmt .., _, h | foreign .., _, h | list _, _, h | atom _, _, h => by
    cases h
    exact .unknownExpr (List.Subset.refl _)

theorem Eval.error_of_evaluate {node : Node} (h : evaluate node store = .error error store') :
    ErrorAmong sink node.integers error := by
  rw [evaluate] at h
  split at h
  · cases h
  · next hvalue =>
    cases h
    exact node.error_of_value hvalue

/-- A statement fails for something that is in it, or because the sink refuses a value. -/
theorem Eval.error_of_execute {node : Node} (h : execute sink node store = .error error store') :
    ErrorAmong sink node.integers error := by
  cases node with
  | letStmt name value span =>
    simp only [execute, bind, EStateM.bind] at h
    split at h
    · cases h
    · next hvalue =>
      cases h
      exact (error_of_evaluate hvalue).mono (List.subset_append_left ..)
  | printStmt value span =>
    simp only [execute, bind, EStateM.bind] at h
    split at h
    · next computed between hvalue =>
      rw [Eval.print] at h
      split at h
      · cases h
      · next hprint =>
        cases h
        obtain ⟨take, hsink, hrefuses⟩ := Machine.refuses_of_print hprint
        exact .refused hsink hrefuses
    · next hvalue =>
      cases h
      exact (error_of_evaluate hvalue).mono (List.subset_append_left ..)
  | literal | var | binary | foreign | list | atom =>
    cases h
    exact .unknownStmt (List.Subset.refl _)

/-- **Statements fail for something that is in them**, or because the sink refuses a value. -/
theorem Eval.error_of_executeAll {nodes : List Node}
    (h : executeAll sink nodes store = .error error store') :
    ErrorAmong sink (Node.itemIntegers nodes) error := by
  induction nodes generalizing store with
  | nil => cases h
  | cons node nodes ih =>
    cases hexec : execute sink node store with
    | error failure failed =>
      rw [executeAll_of_error sink hexec] at h
      cases h
      exact (error_of_execute hexec).mono (List.subset_append_left ..)
    | ok _ next =>
      rw [executeAll_of_ok sink hexec] at h
      exact (ih h).mono (List.subset_append_right ..)

end Errors

/-! ### Whole runs of the evaluator -/

/-- How a run of statements ends, and what is reported. It returns; or something in the tree
has no meaning or no value, and the report is a message if there is room for the integers that
it shows, and otherwise that there is none; or the sink has refused a value. -/
inductive TreeEnding (sink : Option Sink) (nodes : List Node) :
    EStateM.Result EvalError Store (Array Int) → Except Failure (Array Int) → Prop
  | returned (values : Array Int) (store : Store) :
    TreeEnding sink nodes (.ok values store) (.ok values)
  | reported {error : EvalError} {store : Store} {code : ErrorCode} {detail : String} :
    (∀ n ∈ error.integers, Decimal.fits n = true) →
      TreeEnding sink nodes (.error error store) (.error (.diagnostic (.evaluation code detail)))
  | noRoom {error : EvalError} {store : Store} {n : Int} : n ∈ error.integers →
    n ∈ Node.itemIntegers nodes → ¬ Decimal.fits n = true →
      TreeEnding sink nodes (.error error store) (.error .integerTooLong)
  | refused {take : Sink} {taken : Array Int} {value : Int} {refusal : Refusal} {store : Store} :
    sink = some take → take taken value = .error refusal →
      TreeEnding sink nodes (.error (.refused refusal) store) (.error refusal.failure)

section Trees
variable {sink : Option Sink} {nodes : List Node} {error : EvalError} {store : Store}
variable {code : ErrorCode} {detail : Phrase}

/-- A report that shows the integers of an error is as long as they are. -/
theorem treeEnding_reported (hdetail : detail.Fits ↔ ∀ n ∈ error.integers, Decimal.fits n = true)
    (hintegers : error.integers ⊆ Node.itemIntegers nodes) :
    TreeEnding sink nodes (.error error store) (.error (EvalError.reported code detail)) := by
  rw [EvalError.reported]
  by_cases hfits : detail.Fits
  · rw [Phrase.writeShort?_of_fits hfits]
    exact .reported (hdetail.1 hfits)
  · rw [Phrase.writeShort?_of_not_fits hfits]
    rw [hdetail] at hfits
    push Not at hfits
    obtain ⟨n, hn, hlong⟩ := hfits
    exact .noRoom hn (hintegers hn) hlong

theorem ErrorAmong.treeEnding (h : ErrorAmong sink (Node.itemIntegers nodes) error) :
    TreeEnding sink nodes (.error error store) (.error error.failure) := by
  cases h with
  | unbound | unknownOperator | divisionByZero =>
    rw [EvalError.failure]
    refine treeEnding_reported ?_ (List.nil_subset _)
    exact ⟨fun _ n hn => absurd hn List.not_mem_nil, fun _ => Phrase.fits_text _⟩
  | unknownStmt hintegers | unknownExpr hintegers =>
    rw [EvalError.failure]
    refine treeEnding_reported ?_ hintegers
    simp only [Phrase.fits_append, Phrase.fits_text, true_and]
    exact Node.fits_worded _
  | refused hsink hrefuses => exact .refused hsink hrefuses

end Trees

/-- **Every run of statements ends so.** -/
theorem treeEnding (sink : Option Sink) (nodes : List Node) :
    TreeEnding sink nodes (Eval.interpret sink nodes ∅) (runNodes sink nodes).result := by
  rw [runNodes_result, Eval.interpret_eq]
  cases hrun : Eval.executeAll sink nodes ∅ with
  | ok _ store => exact .returned _ store
  | error error store => exact (Eval.error_of_executeAll hrun).treeEnding

/-- **Runs end in known ways**, whatever is run: every list of instructions on the machine, with
any setup, and every list of nodes on the evaluator. -/
theorem run_time_endings (setup : Machine.Setup) :
    (∀ code : List Instr, MachineEnding setup code (Machine.run setup (.load code))
      (runCode setup code).result) ∧
    ∀ nodes : List Node, TreeEnding setup.sink nodes (Eval.interpret setup.sink nodes ∅)
      (runNodes setup.sink nodes).result :=
  ⟨machineEnding setup, treeEnding setup.sink⟩

/-- The least number that is too long to show has no place in a message: neither that of a
machine that is to bind it, nor that of the evaluator where it stands for a statement. -/
theorem failures_without_message :
    (runCode (.plain none) [⟨.store, some (.immediate Decimal.firstTooLong)⟩]).result =
        .error .integerTooLong ∧
      (runNodes none [.atom (.integer Decimal.firstTooLong)]).result = .error .integerTooLong := by
  have hlong := not_fits_firstTooLong
  generalize (Decimal.firstTooLong : Int) = value at hlong ⊢
  constructor
  · have hfault : FaultOf ⟨.store, some (.immediate value)⟩
        (.badTarget (some (.immediate value))) := .badTarget
    have hphrase : ¬ (MachineError.phrase (.badTarget (some (.immediate value))) 0
        ⟨.store, some (.immediate value)⟩).Fits := fun hfits =>
      hlong ((hfault.fits_phrase 0).1 hfits value (List.mem_singleton_self _))
    have hrun : Machine.run (.plain none) (.load [⟨.store, some (.immediate value)⟩]) =
        .error (.fault (.badTarget (some (.immediate value))) 0
          (some ⟨.store, some (.immediate value)⟩))
          (.load [⟨.store, some (.immediate value)⟩]) := rfl
    rw [runCode_result, hrun, resultOf, MachineError.failure,
      Phrase.writeShort?_of_not_fits hphrase]
  · have hphrase : ¬ (Phrase.text "unhandled stmt " ++
        (Node.atom (.integer value)).worded).Fits := fun hfits =>
      hlong ((Node.fits_worded _).1 (Phrase.fits_append.1 hfits).right value
        (List.mem_singleton_self _))
    have hrun : Eval.interpret none [.atom (.integer value)] ∅ =
        .error (.unknownStmt (.atom (.integer value))) ∅ := rfl
    rw [runNodes_result, hrun, resultOf, EvalError.failure, EvalError.reported,
      Phrase.writeShort?_of_not_fits hphrase]

end LetPrint
