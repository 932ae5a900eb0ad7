import LetPrint.Proofs.FailedSteps
import LetPrint.Proofs.RunTimeErrors

/-! The height of the stack, read off the code.

There are no jumps, and how much higher or lower the stack is after an instruction does not depend
on the values in it. So the place alone says how many operands there are when the machine gets
there (`height_of_runThrough`): every instruction passed has either added one or taken one away.
Hence the code says, without being run, which of its instructions are without operands
(`runs_by_position`). It does not say that the machine gets that far: there may be a name without a
value before, or a division by zero. -/
namespace LetPrint

/-- A stack of some height is too low for an operation. -/
def Opcode.Starves : Opcode → Int → Prop
  | push, _ => False
  | store, height => height = 0
  | print, height => height = 0
  | _, height => height < 2

instance : (op : Opcode) → (height : Int) → Decidable (op.Starves height)
  | .push, _ => inferInstanceAs (Decidable False)
  | .store, height => inferInstanceAs (Decidable (height = 0))
  | .print, height => inferInstanceAs (Decidable (height = 0))
  | .add, height => inferInstanceAs (Decidable (height < 2))
  | .sub, height => inferInstanceAs (Decidable (height < 2))
  | .mul, height => inferInstanceAs (Decidable (height < 2))
  | .div, height => inferInstanceAs (Decidable (height < 2))

theorem Opcode.starves_iff (op : Opcode) (stack : List Int) :
    op.Starves stack.length ↔ stack.length < op.operands := by
  cases op with
  | push => simp [Starves, operands]
  | store | print | add | sub | mul | div =>
    simp only [Starves, operands]
    omega

/-- How many values are on the stack when the instructions before a place have been carried out. -/
def heightAt (code : List Instr) (place : Nat) : Int :=
  2 * (code.take place).countP (·.op = .push) - place

theorem heightAt_cons (instr : Instr) (rest : List Instr) (place : Nat) :
    heightAt (instr :: rest) (place + 1) =
      (if instr.op = .push then 1 else -1) + heightAt rest place := by
  simp only [heightAt, List.take_succ_cons, List.countP_cons, decide_eq_true_eq]
  split <;> omega

namespace Machine

/-- The machine as it is whenever a run looks for the next instruction: where one starts, and at
the end, where there is none. -/
inductive Visits (setup : Setup) (m : Machine) : Machine → Prop
  | starting {start : Machine} : start ∈ starts setup m → Visits setup m start
  | returning {values : Array Int} {last : Machine} : run setup m = .ok values last →
    Visits setup m last

section Heights
variable {setup : Setup} {m m' next : Machine} {code done : List Instr} {error : MachineError}
variable {instr : Instr} {place : Nat}

/-- A run comes to where some of the instructions have been carried out, from the first on. -/
theorem visits_load_iff : Visits setup (load code) m ↔
    ∃ done rest, code = done ++ rest ∧ runThrough setup done (load code) = .ok () m := by
  constructor
  · intro h
    cases h with
    | starting hstart =>
      obtain ⟨done, instr, rest, hsplit, hdone⟩ := mem_startsThrough_iff.1 hstart
      exact ⟨done, instr :: rest, hsplit, hdone⟩
    | returning hrun =>
      obtain ⟨hall, _⟩ := run_eq_ok_iff.1 hrun
      rw [(at_load code).left] at hall
      exact ⟨code, [], (List.append_nil code).symm, hall⟩
  · rintro ⟨done, rest, rfl, hdone⟩
    cases rest with
    | nil =>
      rw [List.append_nil] at hdone ⊢
      exact .returning (run_eq_ok_iff.2 ⟨hdone, rfl⟩)
    | cons instr rest =>
      exact .starting (mem_startsThrough_iff.2 ⟨done, instr, rest, rfl, hdone⟩)

/-- What an instruction that a run comes to fails with, the run fails with. -/
theorem run_of_visits_error (h : Visits setup (load code) m) (hnext : m.next = some instr)
    (hfails : step setup instr m = .error error m') : run setup (load code) = .error error m' := by
  obtain ⟨done, rest, hsplit, hdone⟩ := visits_load_iff.1 h
  have hleft := (at_load code).left.trans hsplit
  rw [Machine.next, left_of_runThrough hleft hdone] at hnext
  obtain ⟨others, rfl⟩ := List.head?_eq_some_iff.1 hnext
  exact run_eq_error_iff.2 ⟨done, instr, others, m, hleft, hdone, hfails⟩

/-- **Every instruction that is carried out adds an operand or takes one away.** -/
theorem height_of_runThrough (h : runThrough setup done m = .ok () next) :
    (next.stack.length : Int) = m.stack.length + heightAt done done.length := by
  induction done generalizing m with
  | nil =>
    cases h
    exact (Int.add_zero _).symm
  | cons instr rest ih =>
    obtain ⟨after, hstep, hrest⟩ := runThrough_cons_eq_ok_iff.1 h
    obtain ⟨stack, store, heffect, rfl⟩ := step_eq_ok hstep
    have hlength := length_of_done heffect
    have hheight : (next.stack.length : Int) = stack.length + heightAt rest rest.length :=
      ih hrest
    rw [hheight, hlength, List.length_cons, heightAt_cons]
    omega

/-- **The place that a run has come to says how high the stack is.** -/
theorem height_of_visits (h : Visits setup (load code) m) :
    m.code = code ∧ ∃ place ≤ code.length, m.ip = (place : Int) ∧
      (m.stack.length : Int) = heightAt code place := by
  obtain ⟨done, rest, rfl, hdone⟩ := visits_load_iff.1 h
  obtain ⟨hcode, hip⟩ := passed_of_runThrough hdone
  have hheight := height_of_runThrough hdone
  refine ⟨hcode, done.length, ?_, hip.trans (Int.zero_add _), ?_⟩
  · rw [List.length_append]
    exact Nat.le_add_right _ _
  · rw [hheight, heightAt, heightAt, List.take_left, List.take_length]
    exact Int.zero_add _

theorem at_place_of_visits (h : Visits setup (load code) m) (hip : m.ip = place) :
    m.next = code[place]? ∧ (m.stack.length : Int) = heightAt code place := by
  obtain ⟨hcode, found, _, hfound, hheight⟩ := height_of_visits h
  obtain rfl : found = place := Int.ofNat_inj.1 (hfound.symm.trans hip)
  exact ⟨hcode ▸ next_of_ip hip, hheight⟩

/-! ### Where operands are missing -/

variable {blamed : Option Instr}

/-- An instruction that a run comes to is without operands if its place says so. -/
theorem starved_of_visits (hformed : ∀ instr ∈ code, instr.Formed)
    (henabled : instr.op ∉ setup.disabled) (h : Visits setup (load code) m) (hip : m.ip = place)
    (hinstr : code[place]? = some instr) :
    (∃ stack, instr.effect setup m.stack m.store = .faulted .emptyStack stack) ↔
      instr.op.Starves (heightAt code place) := by
  rw [← (at_place_of_visits h hip).right, Opcode.starves_iff]
  exact exists_faulted_emptyStack_iff (hformed instr (List.mem_of_getElem? hinstr)) henabled

theorem exists_starved_of_run (hformed : ∀ instr ∈ code, instr.Formed)
    (henabled : setup.disabled = [])
    (h : run setup (load code) = .error (.fault .emptyStack place blamed) m) :
    (∃ start, Visits setup (load code) start ∧ start.ip = place) ∧
      ∃ instr, code[place]? = some instr ∧ blamed = some instr ∧
        instr.op.Starves (heightAt code place) := by
  obtain ⟨start, hstarts, instr, hnext, hstep, _⟩ := exists_spared_of_run h
  have hvisits : Visits setup (load code) start := .starting hstarts
  obtain ⟨fault, stack, heffect, herror, _⟩ | ⟨_, _, _, _, herror, _⟩ := step_eq_error hstep
  · injection herror with hfault hip hblamed
    have hinstr : code[place]? = some instr :=
      (at_place_of_visits hvisits hip.symm).left.symm.trans hnext
    have hstarved : instr.op.Starves (heightAt code place) :=
      (starved_of_visits hformed (henabled ▸ List.not_mem_nil) hvisits hip.symm hinstr).1
        ⟨stack, hfault ▸ heffect⟩
    exact ⟨⟨start, hvisits, hip.symm⟩, instr, hinstr, hblamed.trans hnext, hstarved⟩
  · cases herror

theorem exists_run_of_starved (hformed : ∀ instr ∈ code, instr.Formed)
    (henabled : setup.disabled = []) (h : Visits setup (load code) m) (hip : m.ip = place)
    (hinstr : code[place]? = some instr) (hstarved : instr.op.Starves (heightAt code place)) :
    ∃ last : Machine, last.ip = place ∧
      run setup (load code) = .error (.fault .emptyStack place (some instr)) last := by
  have hnext : m.next = some instr := (at_place_of_visits h hip).left.trans hinstr
  obtain ⟨stack, heffect⟩ :=
    (starved_of_visits hformed (henabled ▸ List.not_mem_nil) h hip hinstr).2 hstarved
  have hstep := step_of_faulted heffect
  rw [hnext, hip] at hstep
  exact ⟨{m with ip := place, stack := stack}, rfl, run_of_visits_error h hnext hstep⟩

end Heights

end Machine

/-- What the code alone says about the stack of a run. -/
structure RunsByPosition (sink : Option Sink) (code : List Instr) : Prop where
  /-- Where the run has come to, there are as many operands as the place says. -/
  height : ∀ {m : Machine}, Machine.Visits (.plain sink) (.load code) m →
    ∃ place : Nat, place ≤ code.length ∧ m.ip = place ∧
      (m.stack.length : Int) = heightAt code place
  /-- It fails for want of operands exactly at an instruction that it comes to and that the place
  says is without them. -/
  starved_iff : ∀ (place : Nat) (blamed : Option Instr),
    (∃ m : Machine, m.ip = place ∧
      Machine.run (.plain sink) (.load code) = .error (.fault .emptyStack place blamed) m) ↔
    (∃ m : Machine, Machine.Visits (.plain sink) (.load code) m ∧ m.ip = place) ∧
      ∃ instr, code[place]? = some instr ∧ blamed = some instr ∧
        instr.op.Starves (heightAt code place)
  /-- That is what is reported, unless the instruction has been given an integer, which it does
  not look at, and the message would have to show it and has no room for it. -/
  reported : ∀ {place : Nat} {instr : Instr} {m : Machine},
    Machine.run (.plain sink) (.load code) = .error (.fault .emptyStack place (some instr)) m →
      (runCode (.plain sink) code).result =
        .error (if ∀ n ∈ instr.integers, Text.Decimal.fits n = true then
          .diagnostic (.machine .stackUnderflow
            (MachineError.phrase .emptyStack place instr).write)
        else .integerTooLong)

/-- **The height of the stack goes by the place alone**, on every list of instructions with
arguments that they can be carried out with. -/
theorem runs_by_position (sink : Option Sink) {code : List Instr}
    (hformed : ∀ instr ∈ code, instr.Formed) : RunsByPosition sink code := by
  refine ⟨?_, ?_, ?_⟩
  · intro m hvisits
    exact (Machine.height_of_visits hvisits).right
  · intro place blamed
    constructor
    · rintro ⟨m, _, hrun⟩
      exact Machine.exists_starved_of_run hformed rfl hrun
    · rintro ⟨⟨m, hvisits, hip⟩, instr, hinstr, rfl, hstarved⟩
      exact Machine.exists_run_of_starved hformed rfl hvisits hip hinstr hstarved
  · intro place instr m hrun
    have hfault : FaultOf instr .emptyStack := .emptyStack
    rw [runCode_result, hrun, resultOf, hfault.failure_eq]
    rfl

/-- Code that adds a variable to nothing. -/
def missingAddend : List Instr :=
  [⟨.push, some (.immediate 2)⟩, ⟨.store, some (.text "x")⟩, ⟨.push, some (.reference "x")⟩,
    ⟨.add, none⟩, ⟨.print, none⟩]

/-- One value is on the stack where it is to add two. -/
theorem runs_by_position_missingAddend :
    heightAt missingAddend 3 = 1 ∧
      (∃ m : Machine, m.ip = 3 ∧ Machine.run (.plain (some .collecting)) (.load missingAddend) =
        .error (.fault .emptyStack 3 (some ⟨.add, none⟩)) m) ∧
      (runCode (.plain (some .collecting)) missingAddend).result =
        .error (.diagnostic (.machine .stackUnderflow
          "pop from empty operand stack (ip=3, instr=ADD)")) := by
  have hformed : ∀ instr ∈ missingAddend, instr.Formed := by
    simp only [missingAddend, List.forall_mem_cons]
    exact ⟨.immediate 2, .text "x", .reference "x", .other none (by decide) (by decide),
      .other none (by decide) (by decide), List.forall_mem_nil _⟩
  obtain ⟨_, hstarved, hreported⟩ := runs_by_position (some .collecting) hformed
  have hvisits : Machine.Visits (.plain (some .collecting)) (.load missingAddend)
      ⟨missingAddend, 3, [2], ⟨⟨[("x", 2)]⟩, #[], #[]⟩⟩ :=
    Machine.visits_load_iff.2 ⟨missingAddend.take 3, missingAddend.drop 3, rfl, rfl⟩
  obtain ⟨m, hip, hrun⟩ := (hstarved 3 _).2 ⟨⟨_, hvisits, rfl⟩, _, rfl, rfl, by decide⟩
  exact ⟨rfl, ⟨m, hip, hrun⟩, hreported hrun⟩

end LetPrint
