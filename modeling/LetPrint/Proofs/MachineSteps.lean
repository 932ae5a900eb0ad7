import LetPrint.Machine.Run

/-! One instruction at a time.

`Machine.At` says which instructions a machine still has before it. An instruction
of a translated program has one equation for the step it makes and one for each way
in which it fails; `runThrough_of_ok` and `runThrough_of_error` chain the steps. -/
namespace LetPrint.Machine

/-- The machine stands before some instructions, the last of its code. -/
def At (m : Machine) (instrs : List Instr) : Prop :=
  ∃ passed : Nat, m.ip = passed ∧ m.code.drop passed = instrs

theorem at_load (code : List Instr) : (load code).At code :=
  ⟨0, rfl, rfl⟩

theorem At.left {m : Machine} {instrs : List Instr} (h : m.At instrs) : m.left = instrs := by
  obtain ⟨passed, hip, hdrop⟩ := h
  rw [Machine.left, hip, upcoming_natCast, hdrop]

theorem At.next {m : Machine} {instr : Instr} {rest : List Instr} (h : m.At (instr :: rest)) :
    m.next = some instr := by
  rw [Machine.next, h.left, List.head?_cons]

/-- After some instructions the machine stands before the others, whatever else changed. -/
theorem At.passed {m m' : Machine} {done rest : List Instr} (h : m.At (done ++ rest))
    (hcode : m'.code = m.code) (hip : m'.ip = m.ip + done.length) : m'.At rest := by
  obtain ⟨passed, hp, hdrop⟩ := h
  refine ⟨passed + done.length, ?_, ?_⟩
  · rw [hip, hp]
    rfl
  · rw [hcode, ← List.drop_drop, hdrop, List.drop_left]

/-! ### From what an instruction does to what a run does -/

variable {setup : Setup} {instr : Instr} {m m' : Machine} {error : MachineError}

theorem step_of_ok (h : perform setup instr m = .ok () m') :
    step setup instr m = .ok () {m' with ip := m'.ip + 1} := by
  simp only [step, bind, EStateM.bind, h]
  rfl

theorem step_of_error (h : perform setup instr m = .error error m') :
    step setup instr m = .error error m' := by
  simp only [step, bind, EStateM.bind, h]

theorem runThrough_of_ok (h : step setup instr m = .ok () m') (rest : List Instr) :
    runThrough setup (instr :: rest) m = runThrough setup rest m' := by
  simp only [runThrough, bind, EStateM.bind, h]

theorem runThrough_of_error (h : step setup instr m = .error error m') (rest : List Instr) :
    runThrough setup (instr :: rest) m = .error error m' := by
  simp only [runThrough, bind, EStateM.bind, h]

theorem get_eq (m : Machine) : (EStateM.get : MachineStep Machine) m = .ok m m :=
  rfl

theorem run_eq (setup : Setup) (m : Machine) :
    run setup m =
      match runThrough setup m.left m with
      | .ok _ next => .ok next.store.printed next
      | .error error failed => .error error failed := by
  simp only [run, bind, EStateM.bind, get, getThe, MonadStateOf.get, get_eq]
  cases runThrough setup m.left m <;> rfl

/-! ### The instructions of a translated program -/

variable (sink : Option Sink) (m : Machine)

theorem step_immediate (value : Int) :
    step (.plain sink) ⟨.push, some (.immediate value)⟩ m =
      .ok () {m with stack := value :: m.stack, ip := m.ip + 1} := rfl

theorem step_reference {name : String} {value : Int}
    (h : m.store.bindings.find? name = some value) :
    step (.plain sink) ⟨.push, some (.reference name)⟩ m =
      .ok () {m with stack := value :: m.stack, ip := m.ip + 1} := by
  have hperform : perform (.plain sink) ⟨.push, some (.reference name)⟩ m =
      .ok () {m with stack := value :: m.stack} := by
    show pushArgument (some (.reference name)) m = _
    simp only [pushArgument, bind, EStateM.bind, get, getThe, MonadStateOf.get, get_eq, h]
    rfl
  exact step_of_ok hperform

theorem step_unbound {name : String} (h : m.store.bindings.find? name = none) :
    step (.plain sink) ⟨.push, some (.reference name)⟩ m =
      .error (.fault (.unbound name) m.ip m.next) m := by
  apply step_of_error
  show pushArgument (some (.reference name)) m = _
  simp only [pushArgument, bind, EStateM.bind, get, getThe, MonadStateOf.get, get_eq, h]
  rfl

theorem perform_operator (op : BinOp) :
    perform (.plain sink) ⟨op.opcode, none⟩ m = operate op m := by
  cases op <;> rfl

theorem step_operator {op : BinOp} {left right value : Int} {below : List Int}
    (hstack : m.stack = right :: left :: below) (h : op.apply left right = some value) :
    step (.plain sink) ⟨op.opcode, none⟩ m =
      .ok () {m with stack := value :: below, ip := m.ip + 1} := by
  have hperform : perform (.plain sink) ⟨op.opcode, none⟩ m =
      .ok () {m with stack := value :: below} := by
    rw [perform_operator]
    simp only [operate, pop, bind, EStateM.bind, hstack, h]
    rfl
  exact step_of_ok hperform

theorem step_zero_divisor {op : BinOp} {left right : Int} {below : List Int}
    (hstack : m.stack = right :: left :: below) (h : op.apply left right = none) :
    step (.plain sink) ⟨op.opcode, none⟩ m =
      .error (.fault .divisionByZero m.ip m.next) {m with stack := below} := by
  apply step_of_error
  rw [perform_operator]
  simp only [operate, pop, bind, EStateM.bind, hstack, h]
  rfl

theorem step_store {name : String} {value : Int} {below : List Int}
    (hstack : m.stack = value :: below) :
    step (.plain sink) ⟨.store, some (.text name)⟩ m =
      .ok () {m with stack := below, store := m.store.bind name value, ip := m.ip + 1} := by
  have hperform : perform (.plain sink) ⟨.store, some (.text name)⟩ m =
      .ok () {m with stack := below, store := m.store.bind name value} := by
    show storeArgument (some (.text name)) m = _
    simp only [storeArgument, pop, bind, EStateM.bind, hstack]
    rfl
  exact step_of_ok hperform

theorem step_print {value : Int} {below : List Int} {store : Store}
    (hstack : m.stack = value :: below) (h : Store.print sink value m.store = .ok () store) :
    step (.plain sink) ⟨.print, none⟩ m =
      .ok () {m with stack := below, store := store, ip := m.ip + 1} := by
  have hperform : perform (.plain sink) ⟨.print, none⟩ m =
      .ok () {m with stack := below, store := store} := by
    show printTop sink m = _
    simp only [printTop, pop, bind, EStateM.bind, hstack, h]
  exact step_of_ok hperform

theorem step_print_refused {value : Int} {below : List Int} {store : Store} {refusal : Refusal}
    (hstack : m.stack = value :: below)
    (h : Store.print sink value m.store = .error refusal store) :
    step (.plain sink) ⟨.print, none⟩ m =
      .error (.refused refusal) {m with stack := below, store := store} := by
  apply step_of_error
  show printTop sink m = _
  simp only [printTop, pop, bind, EStateM.bind, hstack, h]

end LetPrint.Machine
