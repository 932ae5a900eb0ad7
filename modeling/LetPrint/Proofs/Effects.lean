import LetPrint.Proofs.MachineSteps

/-! What an instruction does, wherever it stands.

The code of a machine and its place there have no say in what an instruction does to the stack
and to the store. They only show in a fault, which names the place and the instruction at it. So
a step comes down to a function of stack and store (`Instr.effect`, `perform_eq`). That a fault
leaves the store alone is in the type of that function; how many operands are lost then
(`exists_taken_of_faulted`), how the stack grows otherwise (`length_of_done`) and when operands
are missing (`exists_faulted_emptyStack_iff`) can be read off it. -/
namespace LetPrint

/-- How many operands an operation takes from the stack. -/
def Opcode.operands : Opcode → Nat
  | push => 0
  | store => 1
  | print => 1
  | _ => 2

/-- How many values an operation leaves on the stack. -/
def Opcode.results : Opcode → Nat
  | store => 0
  | print => 0
  | _ => 1

/-- Only `push` makes a stack higher. -/
theorem Opcode.results_sub_operands (op : Opcode) :
    (op.results : Int) - op.operands = if op = .push then 1 else -1 := by
  cases op <;> rfl

/-- An instruction with an argument that it can be carried out with. `push` and `store` are
particular about theirs; the other operations do not look at it. -/
inductive Instr.Formed : Instr → Prop
  | immediate (value : Int) : Formed ⟨.push, some (.immediate value)⟩
  | reference (name : String) : Formed ⟨.push, some (.reference name)⟩
  | text (name : String) : Formed ⟨.store, some (.text name)⟩
  | other {op : Opcode} (arg : Option Argument) : op ≠ .push → op ≠ .store → Formed ⟨op, arg⟩

namespace Machine

/-- What becomes of a stack and a store. Only a step that is done and a value that the sink
refuses move the store. -/
inductive Effect where
  | done (stack : List Int) (store : Store)
  | faulted (fault : MachineFault) (stack : List Int)
  | refused (refusal : Refusal) (stack : List Int) (store : Store)

namespace Effect

/-- The effect on a machine. A fault names the place of the machine and the instruction there. -/
def result (m : Machine) : Effect → EStateM.Result MachineError Machine Unit
  | done stack store => .ok () {m with stack := stack, store := store}
  | faulted fault stack => .error (.fault fault m.ip m.next) {m with stack := stack}
  | refused refusal stack store =>
    .error (.refused refusal) {m with stack := stack, store := store}

def ofPush (arg : Option Argument) (stack : List Int) (store : Store) : Effect :=
  match arg with
  | some (.immediate value) => done (value :: stack) store
  | some (.reference name) =>
    match store.bindings.find? name with
    | some value => done (value :: stack) store
    | none => faulted (.unbound name) stack
  | arg => faulted (.badOperand arg) stack

def ofStore (arg : Option Argument) (stack : List Int) (store : Store) : Effect :=
  match arg, stack with
  | some (.text name), value :: below => done below (store.bind name value)
  | some (.text _), [] => faulted .emptyStack []
  | arg, stack => faulted (.badTarget arg) stack

def ofOperator (op : BinOp) (stack : List Int) (store : Store) : Effect :=
  match stack with
  | right :: left :: below =>
    match op.apply left right with
    | some value => done (value :: below) store
    | none => faulted .divisionByZero below
  -- A single operand is gone by the time the other one is missed.
  | _ => faulted .emptyStack []

def ofPrint (sink : Option Sink) (stack : List Int) (store : Store) : Effect :=
  match stack with
  | [] => faulted .emptyStack []
  | value :: below =>
    match Store.print sink value store with
    | .ok () store => done below store
    | .error refusal store => refused refusal below store

end Effect

end Machine

open Machine

/-- What an instruction does to a stack and a store. -/
def Instr.effect (setup : Setup) (instr : Instr) (stack : List Int) (store : Store) : Effect :=
  if instr.op ∈ setup.disabled then .faulted (.noHandler instr.op) stack
  else match instr.op with
    | .push => .ofPush instr.arg stack store
    | .store => .ofStore instr.arg stack store
    | .add => .ofOperator .add stack store
    | .sub => .ofOperator .sub stack store
    | .mul => .ofOperator .mul stack store
    | .div => .ofOperator .div stack store
    | .print => .ofPrint setup.sink stack store

namespace Machine
variable {setup : Setup} {instr : Instr} {m m' next : Machine}

/-! ### The effect is what a step does -/

theorem pushArgument_eq (arg : Option Argument) (m : Machine) :
    pushArgument arg m = (Effect.ofPush arg m.stack m.store).result m := by
  rcases arg with _ | value | name | name
  · rfl
  · rfl
  · simp only [pushArgument, Effect.ofPush, bind, EStateM.bind, get, getThe, MonadStateOf.get,
      get_eq]
    cases m.store.bindings.find? name <;> rfl
  · rfl

theorem storeArgument_eq (arg : Option Argument) (m : Machine) :
    storeArgument arg m = (Effect.ofStore arg m.stack m.store).result m := by
  obtain ⟨code, ip, stack, store⟩ := m
  rcases arg with _ | value | name | name
  · rfl
  · rfl
  · rfl
  · cases stack <;> rfl

theorem operate_eq (op : BinOp) (m : Machine) :
    operate op m = (Effect.ofOperator op m.stack m.store).result m := by
  obtain ⟨code, ip, stack, store⟩ := m
  match stack with
  | [] => rfl
  | [right] => rfl
  | right :: left :: below =>
    simp only [operate, Effect.ofOperator, pop, bind, EStateM.bind]
    cases op.apply left right <;> rfl

theorem printTop_eq (sink : Option Sink) (m : Machine) :
    printTop sink m = (Effect.ofPrint sink m.stack m.store).result m := by
  obtain ⟨code, ip, stack, store⟩ := m
  cases stack with
  | nil => rfl
  | cons value below =>
    simp only [printTop, Effect.ofPrint, pop, bind, EStateM.bind]
    cases Store.print sink value store <;> rfl

/-- **Carrying out an instruction has its effect**, and no other one. -/
theorem perform_eq (setup : Setup) (instr : Instr) (m : Machine) :
    perform setup instr m = (instr.effect setup m.stack m.store).result m := by
  obtain ⟨op, arg⟩ := instr
  unfold perform Instr.effect
  split
  · rfl
  · cases op with
    | push => exact pushArgument_eq arg m
    | store => exact storeArgument_eq arg m
    | add | sub | mul | div => exact operate_eq _ m
    | print => exact printTop_eq setup.sink m

variable {stack stack' : List Int} {store store' : Store} {fault : MachineFault}
variable {error : MachineError} {refusal : Refusal}

theorem step_of_done (h : instr.effect setup m.stack m.store = .done stack store) :
    step setup instr m = .ok () {m with stack := stack, store := store, ip := m.ip + 1} := by
  have hperform : perform setup instr m = .ok () {m with stack := stack, store := store} := by
    rw [perform_eq, h]
    rfl
  exact step_of_ok hperform

theorem step_of_faulted (h : instr.effect setup m.stack m.store = .faulted fault stack) :
    step setup instr m = .error (.fault fault m.ip m.next) {m with stack := stack} := by
  apply step_of_error
  rw [perform_eq, h]
  rfl

theorem step_of_refused (h : instr.effect setup m.stack m.store = .refused refusal stack store) :
    step setup instr m = .error (.refused refusal) {m with stack := stack, store := store} := by
  apply step_of_error
  rw [perform_eq, h]
  rfl

theorem step_eq_ok (h : step setup instr m = .ok () next) :
    ∃ stack store, instr.effect setup m.stack m.store = .done stack store ∧
      next = {m with stack := stack, store := store, ip := m.ip + 1} := by
  cases heffect : instr.effect setup m.stack m.store with
  | done stack store =>
    rw [step_of_done heffect] at h
    cases h
    exact ⟨stack, store, rfl, rfl⟩
  | faulted fault stack =>
    rw [step_of_faulted heffect] at h
    cases h
  | refused refusal stack store =>
    rw [step_of_refused heffect] at h
    cases h

/-- An instruction fails by a fault, named with its place, or because the sink refuses a value. -/
theorem step_eq_error (h : step setup instr m = .error error m') :
    (∃ fault stack, instr.effect setup m.stack m.store = .faulted fault stack ∧
      error = .fault fault m.ip m.next ∧ m' = {m with stack := stack}) ∨
    ∃ refusal stack store, instr.effect setup m.stack m.store = .refused refusal stack store ∧
      error = .refused refusal ∧ m' = {m with stack := stack, store := store} := by
  cases heffect : instr.effect setup m.stack m.store with
  | done stack store =>
    rw [step_of_done heffect] at h
    cases h
  | faulted fault stack =>
    rw [step_of_faulted heffect] at h
    cases h
    exact .inl ⟨fault, stack, rfl, rfl, rfl⟩
  | refused refusal stack store =>
    rw [step_of_refused heffect] at h
    cases h
    exact .inr ⟨refusal, stack, store, rfl, rfl, rfl⟩

/-! ### Operands -/

/-- How an effect of an instruction goes with the operands on the stack. -/
inductive Effect.Uses (setup : Setup) (instr : Instr) (stack : List Int) (store : Store) :
    Effect → Prop
  /-- They are taken, and the results are left. -/
  | done {stack' : List Int} {store' : Store} : instr.op.operands ≤ stack.length →
    stack'.length + instr.op.operands = stack.length + instr.op.results →
      Uses setup instr stack store (.done stack' store')
  /-- There are too few, and none is left. -/
  | missing : stack.length < instr.op.operands →
    Uses setup instr stack store (.faulted .emptyStack [])
  /-- They are taken, but make no value. -/
  | divided {left right : Int} {below : List Int} : instr.op.operands = 2 →
    stack = right :: left :: below → Uses setup instr stack store (.faulted .divisionByZero below)
  /-- None is needed, or they are not asked for. -/
  | untouched {fault : MachineFault} : fault ≠ .emptyStack →
    (instr.op.operands = 0 ∨ ¬ instr.Formed ∨ instr.op ∈ setup.disabled) →
      Uses setup instr stack store (.faulted fault stack)
  /-- The one that was to be printed is taken, and the sink refuses it. -/
  | refused {value : Int} {refusal : Refusal} {below : List Int} {store' : Store} :
    instr.op.operands = 1 → stack = value :: below →
      Store.print setup.sink value store = .error refusal store' →
        Uses setup instr stack store (.refused refusal below store')

section Operands
variable {arg : Option Argument}

theorem uses_ofPush : (Effect.ofPush arg stack store).Uses setup ⟨.push, arg⟩ stack store := by
  have hdone : ∀ value : Int,
      (Effect.done (value :: stack) store).Uses setup ⟨.push, arg⟩ stack store := fun value =>
    .done (Nat.zero_le _) rfl
  have huntouched : ∀ fault : MachineFault, fault ≠ .emptyStack →
      (Effect.faulted fault stack).Uses setup ⟨.push, arg⟩ stack store := fun fault hfault =>
    .untouched hfault (.inl rfl)
  unfold Effect.ofPush
  split
  · exact hdone _
  · split
    · exact hdone _
    · exact huntouched _ nofun
  · exact huntouched _ nofun

theorem uses_ofStore : (Effect.ofStore arg stack store).Uses setup ⟨.store, arg⟩ stack store := by
  unfold Effect.ofStore
  split
  · exact .done (Nat.le_add_left 1 _) rfl
  · exact .missing Nat.one_pos
  · next hcons hnil =>
    refine .untouched nofun (.inr (.inl fun hformed => ?_))
    cases hformed with
    | text name =>
      cases stack with
      | nil => exact hnil name rfl rfl
      | cons value below => exact hcons name value below rfl rfl
    | other _ _ hstore => exact hstore rfl

theorem uses_ofPrint :
    (Effect.ofPrint setup.sink stack store).Uses setup ⟨.print, arg⟩ stack store := by
  cases stack with
  | nil => exact .missing Nat.one_pos
  | cons value below =>
    unfold Effect.ofPrint
    dsimp only
    cases hprint : Store.print setup.sink value store with
    | ok _ store => exact .done (Nat.le_add_left 1 _) rfl
    | error refusal store => exact .refused rfl rfl hprint

theorem uses_ofOperator (op : BinOp) :
    (Effect.ofOperator op stack store).Uses setup ⟨op.opcode, arg⟩ stack store := by
  have hoperands : op.opcode.operands = 2 := by cases op <;> rfl
  have hresults : op.opcode.results = 1 := by cases op <;> rfl
  match stack with
  | [] => exact .missing (by simp [hoperands])
  | [right] => exact .missing (by simp [hoperands])
  | right :: left :: below =>
    unfold Effect.ofOperator
    dsimp only
    cases op.apply left right with
    | some value => exact .done (by simp [hoperands]) (by simp [hoperands, hresults])
    | none => exact .divided hoperands rfl

/-- **What an instruction does with operands.** -/
theorem uses_effect (setup : Setup) (instr : Instr) (stack : List Int) (store : Store) :
    (instr.effect setup stack store).Uses setup instr stack store := by
  obtain ⟨op, arg⟩ := instr
  unfold Instr.effect
  split
  · next hdisabled => exact .untouched nofun (.inr (.inr hdisabled))
  · cases op with
    | push => exact uses_ofPush
    | store => exact uses_ofStore
    | print => exact uses_ofPrint
    | add => exact uses_ofOperator .add
    | sub => exact uses_ofOperator .sub
    | mul => exact uses_ofOperator .mul
    | div => exact uses_ofOperator .div

/-- A step that is done makes the stack higher by one, if it pushes, and else lower by one. -/
theorem length_of_done (h : instr.effect setup stack store = .done stack' store') :
    (stack'.length : Int) = stack.length + if instr.op = .push then 1 else -1 := by
  have huses := uses_effect setup instr stack store
  rw [h] at huses
  cases huses with
  | done _ hlength =>
    have hgain := instr.op.results_sub_operands
    omega

/-- **A fault costs two operands at most**, and none unless an operator was to be applied. -/
theorem exists_taken_of_faulted (h : instr.effect setup stack store = .faulted fault stack') :
    ∃ taken : List Int, stack = taken ++ stack' ∧ taken.length ≤ 2 ∧
      (instr.op.operands < 2 → taken = []) := by
  have huses := uses_effect setup instr stack store
  have hle : instr.op.operands ≤ 2 := by cases instr.op <;> decide
  rw [h] at huses
  cases huses with
  | missing hmissing =>
    refine ⟨stack, (List.append_nil _).symm, by omega, fun hfew => ?_⟩
    exact List.length_eq_zero_iff.1 (by omega)
  | divided htwo hstack => exact ⟨[_, _], hstack, Nat.le_refl 2, fun hfew => absurd htwo (by omega)⟩
  | untouched => exact ⟨[], rfl, Nat.zero_le 2, fun _ => rfl⟩

/-- A refusal costs the value that is refused. -/
theorem exists_print_of_refused
    (h : instr.effect setup stack store = .refused refusal stack' store') :
    ∃ value, stack = value :: stack' ∧
      Store.print setup.sink value store = .error refusal store' := by
  have huses := uses_effect setup instr stack store
  rw [h] at huses
  cases huses with
  | refused _ hstack hprint => exact ⟨_, hstack, hprint⟩

/-- **Operands are missed** exactly if there are too few, where nothing else is wrong with the
instruction. -/
theorem exists_faulted_emptyStack_iff (hformed : instr.Formed)
    (henabled : instr.op ∉ setup.disabled) :
    (∃ stack', instr.effect setup stack store = .faulted .emptyStack stack') ↔
      stack.length < instr.op.operands := by
  have huses := uses_effect setup instr stack store
  constructor
  · rintro ⟨stack', h⟩
    rw [h] at huses
    cases huses with
    | missing hmissing => exact hmissing
    | untouched hfault => exact absurd rfl hfault
  · intro hmissing
    cases heffect : instr.effect setup stack store with
    | done =>
      rw [heffect] at huses
      cases huses
      omega
    | refused =>
      rw [heffect] at huses
      cases huses with
      | refused hone hstack _ =>
        rw [hstack, hone] at hmissing
        exact absurd hmissing (by simp)
    | faulted fault stack' =>
      rw [heffect] at huses
      cases huses with
      | missing => exact ⟨[], rfl⟩
      | divided htwo hstack =>
        rw [hstack, htwo] at hmissing
        exact absurd hmissing (by simp)
      | untouched _ hwhy =>
        rcases hwhy with hzero | hunformed | hdisabled
        · omega
        · exact absurd hformed hunformed
        · exact absurd hdisabled henabled

end Operands

end Machine

end LetPrint
