import LetPrint.Proofs.StackHeight

/-! What any code does to variables.

Only the instructions with a target bind a name (`targets`), and only to the value on top
of the stack; every other instruction leaves the variables alone, and so does one that fails
(`stepsTo_of_step`, `bindings_of_step_error`). Where the targets of some code are distinct and
new, a run of it therefore only ever adds variables, however it ends
(`pairwise_historyThrough`). -/
namespace LetPrint

/-- The name that an instruction binds, if it binds one. -/
def Instr.target? : Instr → Option String
  | ⟨.store, some (.text name)⟩ => some name
  | _ => none

/-- The names that some code binds, in order. -/
def targets (code : List Instr) : List String :=
  code.filterMap Instr.target?

theorem target?_eq_some {instr : Instr} {name : String} :
    instr.target? = some name ↔ instr = ⟨.store, some (.text name)⟩ := by
  constructor
  · intro h
    rw [Instr.target?.eq_def] at h
    split at h
    · cases h
      rfl
    · cases h
  · rintro rfl
    rfl

theorem targets_append (first second : List Instr) :
    targets (first ++ second) = targets first ++ targets second :=
  List.filterMap_append

theorem targets_cons_of_none {instr : Instr} (h : instr.target? = none) (rest : List Instr) :
    targets (instr :: rest) = targets rest :=
  List.filterMap_cons_none h

theorem targets_cons_of_some {instr : Instr} {name : String} (h : instr.target? = some name)
    (rest : List Instr) : targets (instr :: rest) = name :: targets rest :=
  List.filterMap_cons_some h

/-- The state that a computation ends in, however it ends. -/
def stateOf {ε σ α : Type} : EStateM.Result ε σ α → σ
  | .ok _ s => s
  | .error _ s => s

namespace Machine

/-! ### Operations that leave variables alone -/

/-- The machine has the code, the place and the variables of another. -/
structure Keeps (m m' : Machine) : Prop where
  code : m'.code = m.code
  ip : m'.ip = m.ip
  bindings : m'.store.bindings = m.store.bindings

theorem Keeps.refl (m : Machine) : Keeps m m :=
  ⟨rfl, rfl, rfl⟩

theorem Keeps.trans {m m' m'' : Machine} (h : Keeps m m') (h' : Keeps m' m'') : Keeps m m'' :=
  ⟨h'.code.trans h.code, h'.ip.trans h.ip, h'.bindings.trans h.bindings⟩

/-- Whether it succeeds or fails, the operation leaves code, place and variables alone. -/
def Frames {α : Type} (f : MachineStep α) : Prop :=
  ∀ m, Keeps m (stateOf (f m))

section Operations
variable {α β : Type}

theorem Frames.bind {f : MachineStep α} {g : α → MachineStep β} (hf : Frames f)
    (hg : ∀ a, Frames (g a)) : Frames (f >>= g) := by
  intro m
  have hfirst := hf m
  show Keeps m (stateOf (EStateM.bind f g m))
  rw [EStateM.bind]
  cases hrun : f m with
  | ok a between =>
    rw [hrun] at hfirst
    exact hfirst.trans (hg a between)
  | error error failed =>
    rw [hrun] at hfirst
    exact hfirst

theorem frames_get : Frames (get : MachineStep Machine) :=
  Keeps.refl

theorem frames_fail (fault : MachineFault) : Frames (fail fault : MachineStep α) :=
  Keeps.refl

theorem frames_push (value : Int) : Frames (push value) :=
  fun _ => ⟨rfl, rfl, rfl⟩

theorem frames_pop : Frames pop := by
  intro m
  rw [pop]
  split
  · exact .refl m
  · exact ⟨rfl, rfl, rfl⟩

theorem frames_pushArgument (arg : Option Argument) : Frames (pushArgument arg) := by
  rcases arg with _ | value | name | name
  · exact frames_fail _
  · exact frames_push value
  · refine frames_get.bind fun m => ?_
    cases m.store.bindings.find? name with
    | none => exact frames_fail _
    | some value => exact frames_push value
  · exact frames_fail _

theorem frames_operate (op : BinOp) : Frames (operate op) := by
  refine frames_pop.bind fun right => frames_pop.bind fun left => ?_
  cases op.apply left right with
  | none => exact frames_fail _
  | some value => exact frames_push value

theorem bindings_of_print (sink : Option Sink) (value : Int) (s : Store) :
    (stateOf (Store.print sink value s)).bindings = s.bindings := by
  cases sink with
  | none => rfl
  | some take => cases htake : take s.sunk value <;> simp only [Store.print, htake, stateOf]

theorem frames_printTop (sink : Option Sink) : Frames (printTop sink) := by
  refine frames_pop.bind fun value m => ?_
  have hprint := bindings_of_print sink value m.store
  cases hresult : Store.print sink value m.store with
  | ok _ store =>
    rw [hresult] at hprint
    exact ⟨rfl, rfl, hprint⟩
  | error refusal store =>
    rw [hresult] at hprint
    exact ⟨rfl, rfl, hprint⟩

end Operations

/-! ### One instruction -/

section Steps
variable {setup : Setup} {instr : Instr} {m m' next : Machine} {name : String}

/-- An instruction without a target leaves the variables alone. -/
theorem frames_perform (setup : Setup) (h : instr.target? = none) : Frames (perform setup instr) := by
  obtain ⟨op, arg⟩ := instr
  rw [perform]
  split
  · exact frames_fail _
  · cases op with
    | push => exact frames_pushArgument arg
    | store =>
      rcases arg with _ | value | name | name
      · exact frames_fail _
      · exact frames_fail _
      · exact frames_fail _
      · cases h
    | add | sub | mul | div => exact frames_operate _
    | print => exact frames_printTop setup.sink

theorem storeArgument_eq_ok (h : storeArgument (some (.text name)) m = .ok () next) :
    ∃ value below, m.stack = value :: below ∧
      next = {m with stack := below, store := m.store.bind name value} := by
  simp only [storeArgument, pop, bind, EStateM.bind] at h
  cases hstack : m.stack with
  | nil =>
    rw [hstack] at h
    cases h
  | cons value below =>
    rw [hstack] at h
    cases h
    exact ⟨value, below, rfl, rfl⟩

/-- An instruction that fails leaves the variables alone. -/
theorem bindings_of_step_error {error : MachineError} (h : step setup instr m = .error error m') :
    m'.store.bindings = m.store.bindings := by
  obtain ⟨fault, stack, _, rfl, rfl⟩ | ⟨refusal, stack, store, heffect, rfl, rfl⟩ :=
    step_eq_error h
  · rfl
  · obtain ⟨value, _, hprint⟩ := exists_print_of_refused heffect
    have hbindings := bindings_of_print setup.sink value m.store
    rw [hprint] at hbindings
    exact hbindings

/-- What a successful step leads to: the next place, and the same variables or one more value. -/
inductive StepsTo (instr : Instr) (m next : Machine) : Prop
  | same : instr.target? = none → next.code = m.code → next.ip = m.ip + 1 →
    next.store.bindings = m.store.bindings → StepsTo instr m next
  | bound {name : String} {value : Int} : instr.target? = some name → next.code = m.code →
    next.ip = m.ip + 1 → m.stack.head? = some value →
    next.store.bindings = m.store.bindings.insert name value → StepsTo instr m next

/-- **Only an instruction with a target binds a name**, to the value on top of the stack. -/
theorem stepsTo_of_step (h : step setup instr m = .ok () next) : StepsTo instr m next := by
  cases hperform : perform setup instr m with
  | error failure failed =>
    rw [step_of_error hperform] at h
    cases h
  | ok _ performed =>
    rw [step_of_ok hperform] at h
    cases h
    cases htarget : instr.target? with
    | none =>
      have hkeeps := frames_perform setup htarget m
      rw [hperform] at hkeeps
      exact .same htarget hkeeps.code (congrArg (· + 1) hkeeps.ip) hkeeps.bindings
    | some name =>
      rw [target?_eq_some.1 htarget, perform] at hperform
      split at hperform
      · cases hperform
      · obtain ⟨value, below, hstack, rfl⟩ := storeArgument_eq_ok hperform
        exact .bound htarget rfl rfl (by rw [hstack, List.head?_cons]) rfl

theorem StepsTo.ip (h : StepsTo instr m next) : next.ip = m.ip + 1 := by
  cases h <;> assumption

theorem StepsTo.at {rest : List Instr} (h : StepsTo instr m next) (hat : m.At (instr :: rest)) :
    next.At rest := by
  have hcode : next.code = m.code := by cases h <;> assumption
  have happend : m.At ([instr] ++ rest) := hat
  exact happend.passed hcode h.ip

end Steps

/-! ### The states of a run -/

/-- The machine as it is whenever an instruction starts, while instructions are carried out in
order, and at the end. -/
def historyThrough (setup : Setup) (m : Machine) (code : List Instr) : List Machine :=
  startsThrough setup m code ++ [stateOf (runThrough setup code m)]

/-- The machine as it is whenever an instruction of a run starts, and at the end. -/
def history (setup : Setup) (m : Machine) : List Machine :=
  starts setup m ++ [stateOf (run setup m)]

section Runs
variable {setup : Setup} {instr : Instr} {m m' next : Machine} {code rest : List Instr}
variable {name : String}

theorem historyThrough_of_ok (h : step setup instr m = .ok () next) (rest : List Instr) :
    historyThrough setup m (instr :: rest) = m :: historyThrough setup next rest := by
  rw [historyThrough, startsThrough, runThrough_of_ok h, h]
  rfl

theorem historyThrough_of_error {error : MachineError}
    (h : step setup instr m = .error error next) (rest : List Instr) :
    historyThrough setup m (instr :: rest) = [m, next] := by
  rw [historyThrough, startsThrough, runThrough_of_error h, h]
  rfl

theorem history_eq (setup : Setup) (m : Machine) : history setup m = historyThrough setup m m.left := by
  have hstate : stateOf (run setup m) = stateOf (runThrough setup m.left m) := by
    simp only [run, bind, EStateM.bind, get, getThe, MonadStateOf.get, get_eq]
    cases runThrough setup m.left m <;> rfl
  rw [history, hstate]
  rfl

/-! ### Runs that only add variables -/

/-- The targets of the code are distinct, and none of them is bound yet. -/
def Fresh (m : Machine) (code : List Instr) : Prop :=
  (m.store.bindings.names ++ targets code).Nodup

/-- The later machine has all the variables of the earlier one as they were, and perhaps more. -/
def Grows (m m' : Machine) : Prop :=
  m.store.bindings.entries <+: m'.store.bindings.entries

theorem Grows.of_eq (h : m'.store.bindings = m.store.bindings) : Grows m m' :=
  ⟨[], by rw [List.append_nil, h]⟩

/-- A step to fresh code comes from fresh code. -/
theorem StepsTo.fresh (h : StepsTo instr m next) (hfresh : Fresh m (instr :: rest)) :
    Fresh next rest ∧ Grows m next := by
  rw [Fresh] at hfresh ⊢
  cases h with
  | same htarget _ _ hbindings =>
    rw [targets_cons_of_none htarget] at hfresh
    rw [hbindings]
    exact ⟨hfresh, .of_eq hbindings⟩
  | @bound name value htarget _ _ _ hbindings =>
    rw [targets_cons_of_some htarget] at hfresh
    have hnew : name ∉ m.store.bindings.names := fun hmem =>
      (List.nodup_append.1 hfresh).2.2 name hmem name (List.mem_cons_self ..) rfl
    rw [Grows, hbindings, Bindings.names_insert value hnew, Bindings.entries_insert value hnew,
      List.append_assoc]
    exact ⟨hfresh, List.prefix_append _ _⟩

theorem grows_of_historyThrough (hfresh : Fresh m code) (h : m' ∈ historyThrough setup m code) :
    Grows m m' := by
  induction code generalizing m with
  | nil =>
    obtain rfl := List.mem_singleton.1 h
    exact .of_eq rfl
  | cons instr rest ih =>
    cases hstep : step setup instr m with
    | error error failed =>
      rw [historyThrough_of_error hstep] at h
      rcases List.mem_pair.1 h with rfl | rfl
      · exact .of_eq rfl
      · exact .of_eq (bindings_of_step_error hstep)
    | ok _ next =>
      rw [historyThrough_of_ok hstep] at h
      obtain ⟨hnext, hgrows⟩ := (stepsTo_of_step hstep).fresh hfresh
      rcases List.mem_cons.1 h with rfl | h
      · exact .of_eq rfl
      · exact hgrows.trans (ih hnext h)

/-- **Fresh code only adds variables.** -/
theorem pairwise_historyThrough (hfresh : Fresh m code) :
    (historyThrough setup m code).Pairwise Grows := by
  induction code generalizing m with
  | nil => exact List.pairwise_singleton ..
  | cons instr rest ih =>
    have hall : ∀ m' ∈ historyThrough setup m (instr :: rest), Grows m m' :=
      fun m' h => grows_of_historyThrough hfresh h
    cases hstep : step setup instr m with
    | error error failed =>
      rw [historyThrough_of_error hstep] at hall ⊢
      exact List.pairwise_pair.2 (hall failed (by simp))
    | ok _ next =>
      rw [historyThrough_of_ok hstep] at hall ⊢
      have hnext := ((stepsTo_of_step hstep).fresh hfresh).left
      exact List.pairwise_cons.2 ⟨fun m' h => hall m' (List.mem_cons_of_mem m h), ih hnext⟩

/-- Where an instruction of fresh code binds a name, the name is new. -/
theorem new_of_starts (hat : m.At code) (hfresh : Fresh m code)
    (h : m' ∈ startsThrough setup m code) (hnext : m'.next = some ⟨.store, some (.text name)⟩) :
    name ∉ m'.store.bindings.names := by
  induction code generalizing m with
  | nil => exact absurd h List.not_mem_nil
  | cons instr rest ih =>
    obtain rfl | ⟨next, hstep, h⟩ := mem_startsThrough_cons.1 h
    · rw [hat.next, Option.some.injEq] at hnext
      rw [Fresh, targets_cons_of_some (target?_eq_some.2 hnext)] at hfresh
      intro hmem
      exact (List.nodup_append.1 hfresh).2.2 name hmem name (List.mem_cons_self ..) rfl
    · have hto := stepsTo_of_step hstep
      exact ih (hto.at hat) (hto.fresh hfresh).left h

end Runs

end Machine

end LetPrint
