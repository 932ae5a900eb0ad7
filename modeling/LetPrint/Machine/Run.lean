import LetPrint.Machine.State

/-! The stack machine at work.

Each instruction takes its operands from the stack and leaves its result there.
The machine goes through its instructions in order, from the next one to the
last; there are no jumps. An instruction that fails stays next, the operands it
took are gone, and everything else is as it was before. -/
namespace LetPrint.Machine

/-- Ends the step with a fault at the next instruction. -/
def fail {α : Type} (fault : MachineFault) : MachineStep α := fun m =>
  .error (.fault fault m.ip m.next) m

def push (value : Int) : MachineStep Unit := fun m =>
  .ok () {m with stack := value :: m.stack}

def pop : MachineStep Int := fun m =>
  match m.stack with
  | [] => fail .emptyStack m
  | value :: stack => .ok value {m with stack := stack}

/-- Pushes what an argument stands for. -/
def pushArgument (arg : Option Argument) : MachineStep Unit := do
  match arg with
  | some (.immediate value) => push value
  | some (.reference name) =>
    match (← get).store.bindings.find? name with
    | some value => push value
    | none => fail (.unbound name)
  | arg => fail (.badOperand arg)

/-- Binds the name that an argument is to the value on top of the stack. -/
def storeArgument (arg : Option Argument) : MachineStep Unit := do
  match arg with
  | some (.text name) =>
    let value ← pop
    modify fun m => {m with store := m.store.bind name value}
  | arg => fail (.badTarget arg)

/-- Replaces the two values on top of the stack by what an operator makes of them. -/
def operate (op : BinOp) : MachineStep Unit := do
  let right ← pop
  let left ← pop
  match op.apply left right with
  | some value => push value
  | none => fail .divisionByZero

/-- Prints the value on top of the stack. -/
def printTop (sink : Option Sink) : MachineStep Unit := do
  let value ← pop
  fun m =>
    match Store.print sink value m.store with
    | .ok () store => .ok () {m with store := store}
    | .error refusal store => .error (.refused refusal) {m with store := store}

/-- Carries out an instruction; the machine stays where it is. -/
def perform (setup : Setup) (instr : Instr) : MachineStep Unit :=
  if instr.op ∈ setup.disabled then fail (.noHandler instr.op)
  else match instr.op with
    | .push => pushArgument instr.arg
    | .store => storeArgument instr.arg
    | .add => operate .add
    | .sub => operate .sub
    | .mul => operate .mul
    | .div => operate .div
    | .print => printTop setup.sink

/-- Carries out an instruction and goes on to the next. -/
def step (setup : Setup) (instr : Instr) : MachineStep Unit := do
  perform setup instr
  modify fun m => {m with ip := m.ip + 1}

/-- Carries out instructions in order. -/
def runThrough (setup : Setup) : List Instr → MachineStep Unit
  | [] => return ()
  | instr :: rest => do
    step setup instr
    runThrough setup rest

/-- Carries out the instructions from the next one to the last. The result is
everything printed so far. -/
def run (setup : Setup) : MachineStep (Array Int) := do
  let m ← get
  runThrough setup m.left
  return (← get).store.printed

/-- The machine as it is whenever an instruction starts, while instructions are
carried out in order. -/
def startsThrough (setup : Setup) (m : Machine) : List Instr → List Machine
  | [] => []
  | instr :: rest =>
    m :: match step setup instr m with
      | .ok () next => startsThrough setup next rest
      | .error _ _ => []

/-- The machine as it is whenever an instruction of a run starts. -/
def starts (setup : Setup) (m : Machine) : List Machine :=
  startsThrough setup m m.left

end LetPrint.Machine
