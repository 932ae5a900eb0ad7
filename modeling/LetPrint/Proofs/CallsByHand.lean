import LetPrint.Proofs.PartialRuns
import LetPrint.Proofs.RunTimeErrors

/-! Calling a machine by hand.

A machine can be run again and again, given more code and handled between runs, whether or not
something has failed before. It never leaves its code then: it is at an instruction or at the end
(`onCode_called`). At an instruction a pop from the empty stack is reported as that, with the
instruction, even though it is not the instruction that pops. At the end there is no instruction
to report, and the pop fails for that reason instead (`pop_of_empty`). The machine is left as it
was in either case. -/
namespace LetPrint.Machine

/-- What can be called on a machine by hand. -/
inductive Call where
  | run
  | push (value : Int)
  | pop
  | append (code : List Instr)

/-- The machine after a call, whether or not the call has failed. -/
def Call.after (setup : Setup) (m : Machine) : Call → Machine
  | run => stateOf (Machine.run setup m)
  | push value => stateOf (Machine.push value m)
  | pop => stateOf (Machine.pop m)
  | append code => m.append code

/-- A machine with some code after calls. -/
def called (setup : Setup) (code : List Instr) (calls : List Call) : Machine :=
  calls.foldl (Call.after setup) (load code)

/-- The machine is at an instruction or at the end. -/
def OnCode (m : Machine) : Prop :=
  ∃ place : Nat, place ≤ m.code.length ∧ m.ip = place

section Calls
variable {setup : Setup} {m m' : Machine} {place : Nat}

theorem onCode_of_runThrough {done rest : List Instr} (hm : m.OnCode)
    (hleft : m.left = done ++ rest) (h : runThrough setup done m = .ok () m') : m'.OnCode := by
  obtain ⟨place, hle, hip⟩ := hm
  obtain ⟨hcode, hpassed⟩ := passed_of_runThrough h
  have hlength : m.code.length - place = done.length + rest.length := by
    rw [← List.length_drop, ← upcoming_natCast, ← hip, ← List.length_append, ← hleft, left]
  refine ⟨place + done.length, ?_, ?_⟩
  · rw [hcode]
    omega
  · rw [hpassed, hip, Int.natCast_add]

/-- A run that fails is left at an instruction, and one that returns is left at the end. -/
theorem onCode_of_run (hm : m.OnCode) : (stateOf (run setup m)).OnCode := by
  cases hrun : run setup m with
  | ok values last =>
    exact onCode_of_runThrough hm (List.append_nil _).symm (run_eq_ok_iff.1 hrun).left
  | error error failed =>
    obtain ⟨done, instr, rest, start, hleft, hdone, hfails⟩ := run_eq_error_iff.1 hrun
    have hstart : start.OnCode := onCode_of_runThrough hm hleft hdone
    obtain ⟨_, _, _, _, rfl⟩ | ⟨_, _, _, _, _, rfl⟩ := step_eq_error hfails
    · exact hstart
    · exact hstart

/-- **No call takes a machine away from its code.** -/
theorem Call.onCode_after (hm : m.OnCode) (call : Call) : (call.after setup m).OnCode := by
  cases call with
  | run => exact onCode_of_run hm
  | push value => exact hm
  | pop =>
    obtain ⟨code, ip, stack, store⟩ := m
    cases stack with
    | nil => exact hm
    | cons value below => exact hm
  | append code =>
    obtain ⟨place, hle, hip⟩ := hm
    refine ⟨place, ?_, hip⟩
    show place ≤ (m.code ++ code).length
    rw [List.length_append]
    exact Nat.le_add_right_of_le hle

theorem onCode_called (setup : Setup) (code : List Instr) (calls : List Call) :
    (called setup code calls).OnCode := by
  have hfrom : ∀ m : Machine, m.OnCode → (calls.foldl (Call.after setup) m).OnCode := by
    induction calls with
    | nil => exact fun m hm => hm
    | cons call rest ih => exact fun m hm => ih _ (call.onCode_after hm)
  exact hfrom _ ⟨0, Nat.zero_le _, rfl⟩

end Calls

/-- How a pop from the empty stack of a machine is reported: as that, if the machine is at an
instruction and there is room in the message for its integers; otherwise for what is wrong with
the message. -/
inductive EmptyPop (m : Machine) : Failure → Prop
  | underflow {place : Nat} {instr : Instr} : m.ip = place → m.code[place]? = some instr →
    (∀ n ∈ instr.integers, Text.Decimal.fits n = true) →
      EmptyPop m (.diagnostic (.machine .stackUnderflow
        (MachineError.phrase .emptyStack place instr).write))
  | noRoom {place : Nat} {instr : Instr} : m.ip = place → m.code[place]? = some instr →
    ¬ (∀ n ∈ instr.integers, Text.Decimal.fits n = true) → EmptyPop m .integerTooLong
  | noInstruction : m.ip = m.code.length → EmptyPop m .noInstruction

theorem emptyPop_of_onCode {m : Machine} (hm : m.OnCode) :
    EmptyPop m (MachineError.fault .emptyStack m.ip m.next).failure := by
  obtain ⟨place, hle, hip⟩ := hm
  rw [next_of_ip hip, hip]
  cases hinstr : m.code[place]? with
  | none =>
    have hend : place = m.code.length :=
      Nat.le_antisymm hle (List.getElem?_eq_none_iff.1 hinstr)
    exact .noInstruction (hend ▸ hip)
  | some instr =>
    have hfault : FaultOf instr .emptyStack := .emptyStack
    rw [hfault.failure_eq]
    split
    · next hfits => exact .underflow hip hinstr hfits
    · next hlong => exact .noRoom hip hinstr hlong

/-- **A pop from the empty stack fails and changes nothing**, whatever has been called before. It
is reported as an underflow at every instruction that has room in a message, and nowhere else. -/
theorem pop_of_empty (setup : Setup) (code : List Instr) (calls : List Call)
    (hempty : (called setup code calls).stack = []) :
    ∃ error, pop (called setup code calls) = .error error (called setup code calls) ∧
      EmptyPop (called setup code calls) error.failure := by
  refine ⟨_, ?_, emptyPop_of_onCode (onCode_called setup code calls)⟩
  rw [pop, hempty]
  rfl

/-- Code that prints a value. -/
def printsOne : List Instr :=
  [⟨.push, some (.immediate 1)⟩, ⟨.print, none⟩]

/-- Calls that have the machine print the value, then add to another one that is not there. -/
def addingByHand : List Call :=
  [.run, .append [⟨.add, none⟩], .push 5, .run]

theorem pop_of_empty_addingByHand :
    (called (.plain none) printsOne addingByHand).stack = [] ∧
      ∃ error, pop (called (.plain none) printsOne addingByHand) =
          .error error (called (.plain none) printsOne addingByHand) ∧
        EmptyPop (called (.plain none) printsOne addingByHand) error.failure ∧
        error.failure = .diagnostic (.machine .stackUnderflow
          "pop from empty operand stack (ip=2, instr=ADD)") := by
  have hempty : (called (.plain none) printsOne addingByHand).stack = [] := rfl
  have hfails : pop (called (.plain none) printsOne addingByHand) =
      .error (.fault .emptyStack 2 (some ⟨.add, none⟩))
        (called (.plain none) printsOne addingByHand) := rfl
  obtain ⟨error, hpop, hending⟩ := pop_of_empty (.plain none) printsOne addingByHand hempty
  rw [hfails] at hpop
  cases hpop
  exact ⟨hempty, _, hfails, hending, rfl⟩

/-- No underflow is reported without any code, nor after a run that has returned, nor at an
instruction whose integer is too long to show. -/
theorem pop_of_empty_unreported :
    (∃ error, pop (called (.plain none) [] []) = .error error (load []) ∧
      error.failure = .noInstruction) ∧
    ((called (.plain none) printsOne [.run]).stack = [] ∧
      ∃ error, pop (called (.plain none) printsOne [.run]) =
          .error error (called (.plain none) printsOne [.run]) ∧
        error.failure = .noInstruction) ∧
    ∃ error, pop (load [⟨.push, some (.immediate Text.Decimal.firstTooLong)⟩]) =
        .error error (load [⟨.push, some (.immediate Text.Decimal.firstTooLong)⟩]) ∧
      error.failure = .integerTooLong := by
  have hlong := not_fits_firstTooLong
  generalize (Text.Decimal.firstTooLong : Int) = value at hlong ⊢
  refine ⟨⟨_, rfl, rfl⟩, ⟨rfl, _, rfl, rfl⟩, _, rfl, ?_⟩
  have hfault : FaultOf ⟨.push, some (.immediate value)⟩ .emptyStack := .emptyStack
  have hnot : ¬ ∀ n ∈ Instr.integers ⟨.push, some (.immediate value)⟩,
      Text.Decimal.fits n = true := fun hfits => hlong (hfits value (List.mem_singleton_self _))
  exact (hfault.failure_eq 0).trans (if_neg hnot)

end LetPrint.Machine
