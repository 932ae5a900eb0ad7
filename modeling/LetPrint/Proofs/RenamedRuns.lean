import LetPrint.Proofs.Copies
import LetPrint.Proofs.StraightLine

/-! Runs under other names.

Instructions and statements with other names move a machine and a store with other names as
the instructions and the statements themselves move the machine and the store, one at a time
(`renames_perform`, `renames_execute`), as long as different names stay different. So a whole
run comes to the same, renamed: it prints the same values, it ends at the same place, and the
variables are the same under their other names (`Machine.run_renamed`,
`Eval.interpret_copy`). -/
namespace LetPrint

/-! ### What is renamed -/

section Definitions
variable (rename : String → String)

def Argument.renamed : Argument → Argument
  | immediate value => .immediate value
  | reference name => .reference (rename name)
  | text name => .text (rename name)

def Instr.renamed (i : Instr) : Instr :=
  ⟨i.op, i.arg.map (Argument.renamed rename)⟩

def Store.renamed (s : Store) : Store :=
  {s with bindings := s.bindings.mapEntries rename id}

def Machine.renamed (m : Machine) : Machine :=
  {m with code := m.code.map (Instr.renamed rename), store := m.store.renamed rename}

def MachineFault.renamed : MachineFault → MachineFault
  | unbound name => .unbound (rename name)
  | badOperand arg => .badOperand (arg.map (Argument.renamed rename))
  | badTarget arg => .badTarget (arg.map (Argument.renamed rename))
  | fault => fault

def MachineError.renamed : MachineError → MachineError
  | fault f ip instr => .fault (f.renamed rename) ip (instr.map (Instr.renamed rename))
  | refused refusal => .refused refusal

/-- The error with another name for a variable. Errors about nodes that are no part of a
program stay as they are. -/
def EvalError.renamed : EvalError → EvalError
  | unbound name => .unbound (rename name)
  | error => error

end Definitions

/-- A store in which only some names are bound. -/
def Store.NamedIn (names : Set String) (s : Store) : Prop :=
  ∀ n ∈ s.bindings.names, n ∈ names

/-- The name in an argument, if there is one. -/
def Argument.name? : Argument → Option String
  | immediate _ => none
  | reference name => some name
  | text name => some name

/-- An instruction with one of some names, if it has one. -/
def Instr.NamedIn (names : Set String) (i : Instr) : Prop :=
  ∀ n ∈ i.arg.bind Argument.name?, n ∈ names

/-- Renaming as a change of machines and their errors. -/
def Machine.naming (rename : String → String) : Change MachineError Machine :=
  ⟨MachineError.renamed rename, Machine.renamed rename⟩

/-- Renaming as a change of stores and the errors of the evaluator. -/
def Eval.naming (rename : String → String) : Change EvalError Store :=
  ⟨EvalError.renamed rename, Store.renamed rename⟩

/-! ### Stores -/

namespace Store
variable {rename : String → String} {names : Set String} {s : Store} {name : String}

theorem print_renamed (sink : Option Sink) (value : Int) (s : Store) :
    Store.print sink value (s.renamed rename) =
      match Store.print sink value s with
      | .ok () s => .ok () (s.renamed rename)
      | .error refusal s => .error refusal (s.renamed rename) := by
  cases sink with
  | none => rfl
  | some take =>
    have hsunk : (s.renamed rename).sunk = s.sunk := rfl
    simp only [Store.print, hsunk]
    cases take s.sunk value <;> rfl

theorem namedIn_empty : (∅ : Store).NamedIn names := by
  intro n hn
  cases hn

theorem NamedIn.print {sink : Option Sink} {value : Int} {s' : Store} (h : s.NamedIn names)
    (hprint : Store.print sink value s = .ok () s') : s'.NamedIn names := by
  have hbindings := Machine.bindings_of_print sink value s
  rw [hprint] at hbindings
  intro n hn
  apply h n
  rw [← hbindings]
  exact hn

theorem NamedIn.bind (h : s.NamedIn names) (hname : name ∈ names) (value : Int) :
    (s.bind name value).NamedIn names := by
  intro n hn
  rcases Bindings.mem_names_insert hn with rfl | hn
  · exact hname
  · exact h n hn

variable (hinj : Set.InjOn rename names) (hs : s.NamedIn names) (hname : name ∈ names)
include hinj hs hname

theorem find?_renamed :
    (s.renamed rename).bindings.find? (rename name) = s.bindings.find? name := by
  show (s.bindings.mapEntries rename id).find? (rename name) = _
  rw [Bindings.find?_mapEntries hinj hs hname, Option.map_id_fun, id_eq]

theorem bind_renamed (value : Int) :
    (s.renamed rename).bind (rename name) value = (s.bind name value).renamed rename := by
  have hinsert := Bindings.insert_mapEntries hinj hs hname id value
  rw [id_eq] at hinsert
  simp only [bind, renamed, hinsert]

end Store

/-! ### The machine -/

namespace Machine
variable {rename : String → String} {names : Set String}

/-- An operation moves machines with other names as another one moves the machines
themselves, where only some names are bound. -/
abbrev Renames {α β : Type} (rename : String → String) (names : Set String) (g : α → β)
    (R : α → Prop) (f' : MachineStep β) (f : MachineStep α) : Prop :=
  (naming rename).Carries (fun m => m.store.NamedIn names) g R f' f

theorem left_renamed (m : Machine) :
    (m.renamed rename).left = m.left.map (Instr.renamed rename) :=
  upcoming_map ..

theorem next_renamed (m : Machine) :
    (m.renamed rename).next = m.next.map (Instr.renamed rename) := by
  rw [next, next, left_renamed, List.head?_map]

theorem renames_get : Renames rename names (Machine.renamed rename)
    (fun m => m.store.NamedIn names) get get :=
  Change.carries_get

theorem renames_fail {α β : Type} {g : α → β} (R : α → Prop) (fault : MachineFault) :
    Renames rename names g R (fail (fault.renamed rename)) (fail fault) := by
  constructor
  case eq =>
    intro m _
    show EStateM.Result.error (MachineError.fault _ m.ip (m.renamed rename).next) _ = _
    rw [next_renamed]
    rfl
  case ok =>
    intro m a m' _ hrun
    cases hrun

theorem renames_push (value : Int) :
    Renames rename names id (fun _ => True) (push value) (push value) :=
  Change.carries_modify (fun _ _ => rfl) fun _ hm => hm

theorem renames_pop : Renames rename names id (fun _ => True) pop pop := by
  constructor
  case eq =>
    intro m hm
    obtain ⟨code, ip, stack, store⟩ := m
    cases stack with
    | nil => exact (renames_fail (fun _ => True) .emptyStack).eq hm
    | cons value below => rfl
  case ok =>
    intro m value m' hm hrun
    obtain ⟨code, ip, stack, store⟩ := m
    cases stack with
    | nil => cases hrun
    | cons top below =>
      cases hrun
      exact ⟨hm, trivial⟩

theorem renames_operate (op : BinOp) :
    Renames rename names id (fun _ => True) (operate op) (operate op) := by
  refine renames_pop.bind fun right _ => renames_pop.bind fun left _ => ?_
  rw [id_eq, id_eq]
  cases op.apply left right with
  | some value => exact renames_push value
  | none => exact renames_fail _ .divisionByZero

theorem renames_printTop (sink : Option Sink) :
    Renames rename names id (fun _ => True) (printTop sink) (printTop sink) := by
  refine renames_pop.bind fun value _ => ?_
  constructor
  case eq =>
    intro m _
    have hprint : Store.print sink value (m.renamed rename).store = _ :=
      Store.print_renamed sink value m.store
    show (match Store.print sink value (m.renamed rename).store with
      | .ok () store => EStateM.Result.ok () {m.renamed rename with store := store}
      | .error refusal store =>
        EStateM.Result.error (MachineError.refused refusal)
          {m.renamed rename with store := store}) =
      Change.result _ id (match Store.print sink value m.store with
        | .ok () store => .ok () {m with store := store}
        | .error refusal store => .error (.refused refusal) {m with store := store})
    rw [hprint]
    cases Store.print sink value m.store <;> rfl
  case ok =>
    intro m u m' hm hrun
    split at hrun
    · next store hprint =>
      cases hrun
      exact ⟨hm.print hprint, trivial⟩
    · cases hrun

section Names
variable (hinj : Set.InjOn rename names)
include hinj

theorem renames_pushArgument {arg : Option Argument}
    (harg : ∀ n ∈ arg.bind Argument.name?, n ∈ names) :
    Renames rename names id (fun _ => True)
      (pushArgument (arg.map (Argument.renamed rename))) (pushArgument arg) := by
  cases arg with
  | none => exact renames_fail _ (.badOperand none)
  | some arg =>
    cases arg with
    | immediate value => exact renames_push value
    | text name => exact renames_fail _ (.badOperand (some (.text name)))
    | reference name =>
      refine renames_get.bind fun m hm => ?_
      have hfind : (m.renamed rename).store.bindings.find? (rename name) =
          m.store.bindings.find? name := Store.find?_renamed hinj hm (harg name rfl)
      rw [hfind]
      cases m.store.bindings.find? name with
      | some value => exact renames_push value
      | none => exact renames_fail _ (.unbound name)

theorem renames_storeArgument {arg : Option Argument}
    (harg : ∀ n ∈ arg.bind Argument.name?, n ∈ names) :
    Renames rename names id (fun _ => True)
      (storeArgument (arg.map (Argument.renamed rename))) (storeArgument arg) := by
  cases arg with
  | none => exact renames_fail _ (.badTarget none)
  | some arg =>
    cases arg with
    | immediate value => exact renames_fail _ (.badTarget (some (.immediate value)))
    | reference name => exact renames_fail _ (.badTarget (some (.reference name)))
    | text name =>
      have hname := harg name rfl
      refine renames_pop.bind fun value _ => Change.carries_modify (fun m hm => ?_) fun m hm => ?_
      · have hbind := Store.bind_renamed hinj hm hname value
        show {m.renamed rename with store := (m.store.renamed rename).bind (rename name) value} = _
        rw [hbind]
        rfl
      · exact hm.bind hname value

/-- An instruction with another name does the same, renamed. -/
theorem renames_perform (setup : Setup) {instr : Instr} (hinstr : instr.NamedIn names) :
    Renames rename names id (fun _ => True) (perform setup (instr.renamed rename))
      (perform setup instr) := by
  obtain ⟨op, arg⟩ := instr
  unfold perform
  have hop : (Instr.renamed rename ⟨op, arg⟩).op = op := rfl
  rw [hop]
  by_cases hdisabled : op ∈ setup.disabled
  · rw [if_pos hdisabled, if_pos hdisabled]
    exact renames_fail _ (.noHandler op)
  · rw [if_neg hdisabled, if_neg hdisabled]
    cases op with
    | push => exact renames_pushArgument hinj hinstr
    | store => exact renames_storeArgument hinj hinstr
    | print => exact renames_printTop setup.sink
    | add | sub | mul | div => exact renames_operate _

theorem renames_step (setup : Setup) {instr : Instr} (hinstr : instr.NamedIn names) :
    Renames rename names id (fun _ => True) (step setup (instr.renamed rename))
      (step setup instr) :=
  (renames_perform hinj setup hinstr).bind fun _ _ =>
    Change.carries_modify (fun _ _ => rfl) fun _ hm => hm

theorem renames_runThrough (setup : Setup) {code : List Instr}
    (hcode : ∀ i ∈ code, i.NamedIn names) :
    Renames rename names id (fun _ => True)
      (runThrough setup (code.map (Instr.renamed rename))) (runThrough setup code) := by
  induction code with
  | nil => exact Change.carries_pure rfl trivial
  | cons instr rest ih =>
    obtain ⟨hinstr, hrest⟩ := List.forall_mem_cons.1 hcode
    exact (renames_step hinj setup hinstr).bind fun _ _ => ih hrest

/-- **A machine with other names runs as before**, renamed. -/
theorem run_renamed (setup : Setup) {code : List Instr} (hcode : ∀ i ∈ code, i.NamedIn names) :
    run setup (load (code.map (Instr.renamed rename))) =
      (naming rename).result id (run setup (load code)) := by
  have hempty : (load code).store.NamedIn names := Store.namedIn_empty
  have hrun : runThrough setup (code.map (Instr.renamed rename))
        (load (code.map (Instr.renamed rename))) =
      (naming rename).result id (runThrough setup code (load code)) :=
    (renames_runThrough hinj setup hcode).eq hempty
  rw [run_load, run_load, hrun]
  cases runThrough setup code (load code) <;> rfl

end Names

end Machine

/-! ### The evaluator -/

section Copies
variable {c : Copying} {names : Set String}

namespace Expr

/-- Where the variables have other names, the copy of an expression has its value. -/
theorem value_copy {bindings : Bindings Int} (hinj : Set.InjOn c.name names)
    (hbindings : ∀ n ∈ bindings.names, n ∈ names) (e : Expr) (he : ∀ n ∈ e.names, n ∈ names) :
    (e.copy c).node.value (bindings.mapEntries c.name id) =
      (e.node.value bindings).mapError (EvalError.renamed c.name) := by
  induction e with
  | literal => rfl
  | var name span =>
    have hname := he name.raw (List.mem_singleton_self _)
    have hfind := Bindings.find?_mapEntries hinj hbindings hname (id : Int → Int)
    rw [Option.map_id_fun, id_eq] at hfind
    simp only [copy, node, Node.value, Token.copyName_raw, hfind]
    cases bindings.find? name.raw <;> rfl
  | binary left op right span ihl ihr =>
    rw [Expr.names, List.forall_mem_append] at he
    simp only [copy, node, Node.value, ihl he.left, ihr he.right]
    cases left.node.value bindings with
    | error error => rfl
    | ok l =>
      cases right.node.value bindings with
      | error error => rfl
      | ok r =>
        cases hvalue : op.apply l r <;>
          simp only [bind, Except.bind, Except.mapError, hvalue, EvalError.renamed]

end Expr

namespace Eval

/-- An operation moves stores with other names as another one moves the stores themselves,
where only some names are bound. -/
abbrev Renames {α β : Type} (rename : String → String) (names : Set String) (g : α → β)
    (R : α → Prop) (f' : Eval β) (f : Eval α) : Prop :=
  (naming rename).Carries (Store.NamedIn names) g R f' f

variable (hinj : Set.InjOn c.name names)

theorem renames_print (sink : Option Sink) (value : Int) :
    Renames c.name names id (fun _ => True) (Eval.print sink value) (Eval.print sink value) := by
  constructor
  case eq =>
    intro s _
    have hprint : Store.print sink value (s.renamed c.name) = _ := Store.print_renamed sink value s
    show Eval.print sink value (s.renamed c.name) = _
    unfold Eval.print
    rw [hprint]
    cases Store.print sink value s <;> rfl
  case ok =>
    intro s u s' hs hrun
    unfold Eval.print at hrun
    split at hrun
    · next store hprint =>
      cases hrun
      exact ⟨hs.print hprint, trivial⟩
    · cases hrun

include hinj

theorem renames_evaluate {e : Expr} (he : ∀ n ∈ e.names, n ∈ names) :
    Renames c.name names id (fun _ => True) (evaluate (e.copy c).node) (evaluate e.node) := by
  constructor
  case eq =>
    intro s hs
    have hvalue : (e.copy c).node.value (s.renamed c.name).bindings = _ :=
      e.value_copy hinj hs he
    show evaluate (e.copy c).node (s.renamed c.name) = _
    unfold evaluate
    rw [hvalue]
    cases e.node.value s.bindings <;> rfl
  case ok =>
    intro s value s' hs hrun
    unfold evaluate at hrun
    split at hrun
    · cases hrun
      exact ⟨hs, trivial⟩
    · cases hrun

/-- A statement with other names does the same, renamed. -/
theorem renames_execute (sink : Option Sink) {s : Stmt} (hs : ∀ n ∈ s.names, n ∈ names) :
    Renames c.name names id (fun _ => True) (execute sink (s.copy c).node)
      (execute sink s.node) := by
  rw [Stmt.names, List.forall_mem_append] at hs
  obtain ⟨hdeclared, hvalue⟩ := hs
  cases s with
  | letStmt name e span =>
    have hname := hdeclared name.raw (List.mem_singleton_self _)
    refine (renames_evaluate hinj hvalue).bind fun value _ => Change.carries_modify ?_ ?_
    · exact fun store hstore => Store.bind_renamed hinj hstore hname value
    · exact fun store hstore => hstore.bind hname value
  | printStmt e span =>
    exact (renames_evaluate hinj hvalue).bind fun value _ => renames_print sink value

theorem renames_executeAll (sink : Option Sink) {program : Program}
    (hprogram : ∀ s ∈ program, ∀ n ∈ s.names, n ∈ names) :
    Renames c.name names id (fun _ => True) (executeAll sink (program.copy c).nodes)
      (executeAll sink program.nodes) := by
  induction program with
  | nil => exact Change.carries_pure rfl trivial
  | cons s rest ih =>
    obtain ⟨hs, hrest⟩ := List.forall_mem_cons.1 hprogram
    exact (renames_execute hinj sink hs).bind fun _ _ => ih hrest

/-- **A program with other names runs as before**, renamed. -/
theorem interpret_copy (sink : Option Sink) {program : Program}
    (hprogram : ∀ s ∈ program, ∀ n ∈ s.names, n ∈ names) :
    interpret sink (program.copy c).nodes ∅ =
      (naming c.name).result id (interpret sink program.nodes ∅) := by
  have hrun : executeAll sink (program.copy c).nodes ∅ =
      (naming c.name).result id (executeAll sink program.nodes ∅) :=
    (renames_executeAll hinj sink hprogram).eq Store.namedIn_empty
  rw [interpret_eq, interpret_eq, hrun]
  cases executeAll sink program.nodes ∅ <;> rfl

/-- As many statements start as before, so a run that fails does so at the same one. -/
theorem length_starts_copy (sink : Option Sink) {program : Program} {store : Store}
    (hprogram : ∀ s ∈ program, ∀ n ∈ s.names, n ∈ names) (hstore : store.NamedIn names) :
    (starts sink (store.renamed c.name) (program.copy c).nodes).length =
      (starts sink store program.nodes).length := by
  induction program generalizing store with
  | nil => rfl
  | cons s rest ih =>
    obtain ⟨hs, hrest⟩ := List.forall_mem_cons.1 hprogram
    have hexecute := renames_execute hinj sink hs
    have hcopy : execute sink (s.copy c).node (store.renamed c.name) =
        (naming c.name).result id (execute sink s.node store) := hexecute.eq hstore
    show (starts sink _ ((s.copy c).node :: Program.nodes (Program.copy c rest))).length = _
    rw [Program.nodes_cons, starts, starts, hcopy]
    -- The other statements start in the store that the first one leaves, renamed.
    cases hrun : execute sink s.node store with
    | error error failed => rfl
    | ok _ next => exact congrArg Nat.succ (ih hrest (hexecute.ok hstore hrun).left)

end Eval

/-! ### Code and reports -/

theorem Expr.code_copy (e : Expr) : (e.copy c).code = e.code.map (Instr.renamed c.name) := by
  induction e with
  | literal => rfl
  | var => rfl
  | binary left op right span ihl ihr =>
    rw [copy, code, code, ihl, ihr, List.map_append, List.map_append]
    rfl

theorem Stmt.code_copy (s : Stmt) : (s.copy c).code = s.code.map (Instr.renamed c.name) := by
  cases s with
  | letStmt =>
    rw [copy, code, code, Expr.code_copy, List.map_append]
    rfl
  | printStmt =>
    rw [copy, code, code, Expr.code_copy, List.map_append]
    rfl

theorem Program.code_copy (program : Program) :
    (program.copy c).code = program.code.map (Instr.renamed c.name) := by
  induction program with
  | nil => rfl
  | cons s rest ih =>
    show code (s.copy c :: Program.copy c rest) = _
    rw [code_cons, code_cons, Stmt.code_copy, ih, List.map_append]

theorem Expr.namedIn_code {e : Expr} (he : ∀ n ∈ e.names, n ∈ names) :
    ∀ i ∈ e.code, i.NamedIn names := by
  induction e with
  | literal value span =>
    refine List.forall_mem_singleton.2 fun n hn => ?_
    cases hn
  | var name span =>
    refine List.forall_mem_singleton.2 fun n hn => ?_
    cases hn
    exact he _ (List.mem_singleton_self _)
  | binary left op right span ihl ihr =>
    rw [Expr.names, List.forall_mem_append] at he
    rw [code, List.forall_mem_append, List.forall_mem_append]
    refine ⟨⟨ihl he.left, ihr he.right⟩, List.forall_mem_singleton.2 fun n hn => ?_⟩
    cases hn

theorem Stmt.namedIn_code {s : Stmt} (hs : ∀ n ∈ s.names, n ∈ names) :
    ∀ i ∈ s.code, i.NamedIn names := by
  rw [Stmt.names, List.forall_mem_append] at hs
  obtain ⟨hdeclared, hvalue⟩ := hs
  cases s with
  | letStmt name e span =>
    refine List.forall_mem_append.2 ⟨Expr.namedIn_code hvalue, ?_⟩
    refine List.forall_mem_singleton.2 fun n hn => ?_
    cases hn
    exact hdeclared _ (List.mem_singleton_self _)
  | printStmt e span =>
    refine List.forall_mem_append.2 ⟨Expr.namedIn_code hvalue, ?_⟩
    refine List.forall_mem_singleton.2 fun n hn => ?_
    cases hn

theorem Program.namedIn_code {program : Program}
    (hprogram : ∀ s ∈ program, ∀ n ∈ s.names, n ∈ names) : ∀ i ∈ program.code, i.NamedIn names := by
  intro i hi
  obtain ⟨s, hs, hi⟩ := List.mem_flatMap.1 hi
  exact Stmt.namedIn_code (hprogram s hs) i hi

end Copies

end LetPrint
