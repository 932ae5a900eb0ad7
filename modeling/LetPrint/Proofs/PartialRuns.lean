import LetPrint.Proofs.Effects

/-! Runs in parts.

Instructions are carried out one after the other, so a run of some code is a run of its beginning
and then of the rest (`runThrough_append_of_ok`), an instruction starts where all before it were
carried out (`mem_startsThrough_iff`), and a run that fails does so at one instruction
(`runThrough_eq_error_iff`). A machine does not notice instructions that are added behind the
ones that it carries out, not even when it fails. So it can be given its code in parts: run on
the first, given more and run again, it ends as if it had been given all of the code at once
(`run_load_append`). -/
namespace LetPrint

/-- After the first of the items that come there are the others. -/
theorem upcoming_succ {α : Type} {items rest : List α} {item : α} {place : Int}
    (h : upcoming items place = item :: rest) : upcoming items (place + 1) = rest := by
  cases place with
  | ofNat passed =>
    calc upcoming items (Int.ofNat passed + 1) = (items.drop passed).tail := List.tail_drop.symm
      _ = (item :: rest).tail := congrArg List.tail h
      _ = rest := List.tail_cons
  | negSucc n =>
    unfold upcoming at h
    dsimp only at h
    split at h
    · next hn =>
      have hne : items.drop (items.length - (n + 1)) ≠ [] := by
        rw [Ne, List.drop_eq_nil_iff]
        omega
      have hrest : items.drop (items.length - (n + 1) + 1) ++ items = rest := by
        rw [← List.tail_drop, ← List.tail_append_of_ne_nil hne, h, List.tail_cons]
      -- The last item is followed by the first one.
      cases n with
      | zero =>
        rw [Nat.sub_add_cancel hn, List.drop_length, List.nil_append] at hrest
        exact hrest
      | succ n =>
        have hplace : items.length - (n + 1 + 1) + 1 = items.length - (n + 1) := by omega
        rw [hplace] at hrest
        show (if n < items.length then items.drop (items.length - (n + 1)) ++ items else []) = rest
        rw [if_pos (Nat.lt_of_succ_lt hn)]
        exact hrest
    · cases h

theorem upcoming_add {α : Type} {items done rest : List α} {place : Int}
    (h : upcoming items place = done ++ rest) : upcoming items (place + done.length) = rest := by
  induction done generalizing place with
  | nil => rwa [List.length_nil, Int.natCast_zero, Int.add_zero]
  | cons item done ih =>
    have hplace : place + (item :: done).length = place + 1 + done.length := by
      rw [List.length_cons]
      omega
    rw [hplace]
    exact ih (upcoming_succ h)

namespace Machine
variable {setup : Setup} {instr : Instr} {m m' start next : Machine}
variable {code done first rest : List Instr}
variable {error : MachineError}

/-! ### Beginnings of a run -/

theorem runThrough_cons_eq_ok_iff : runThrough setup (instr :: rest) m = .ok () next ↔
    ∃ after, step setup instr m = .ok () after ∧ runThrough setup rest after = .ok () next := by
  constructor
  · intro h
    cases hstep : step setup instr m with
    | ok _ after =>
      rw [runThrough_of_ok hstep] at h
      exact ⟨after, rfl, h⟩
    | error error failed =>
      rw [runThrough_of_error hstep] at h
      cases h
  · rintro ⟨after, hstep, hrest⟩
    rw [runThrough_of_ok hstep]
    exact hrest

theorem runThrough_append_of_ok (h : runThrough setup first m = .ok () next) (rest : List Instr) :
    runThrough setup (first ++ rest) m = runThrough setup rest next := by
  induction first generalizing m with
  | nil =>
    cases h
    rfl
  | cons instr others ih =>
    obtain ⟨after, hstep, hothers⟩ := runThrough_cons_eq_ok_iff.1 h
    rw [List.cons_append, runThrough_of_ok hstep]
    exact ih hothers

/-- **A run fails at one instruction**, and those before it are carried out. -/
theorem runThrough_eq_error_iff : runThrough setup code m = .error error m' ↔
    ∃ done instr rest start, code = done ++ instr :: rest ∧
      runThrough setup done m = .ok () start ∧ step setup instr start = .error error m' := by
  constructor
  · intro h
    induction code generalizing m with
    | nil => cases h
    | cons instr rest ih =>
      cases hstep : step setup instr m with
      | error failure failed =>
        rw [runThrough_of_error hstep] at h
        cases h
        exact ⟨[], instr, rest, m, rfl, rfl, hstep⟩
      | ok _ next =>
        rw [runThrough_of_ok hstep] at h
        obtain ⟨done, failing, others, start, rfl, hdone, hfails⟩ := ih h
        exact ⟨instr :: done, failing, others, start, rfl,
          runThrough_cons_eq_ok_iff.2 ⟨next, hstep, hdone⟩, hfails⟩
  · rintro ⟨done, instr, rest, start, rfl, hdone, hfails⟩
    rw [runThrough_append_of_ok hdone, runThrough_of_error hfails]

theorem runThrough_append_of_error (h : runThrough setup first m = .error error m')
    (rest : List Instr) : runThrough setup (first ++ rest) m = .error error m' := by
  obtain ⟨done, instr, others, start, rfl, hdone, hfails⟩ := runThrough_eq_error_iff.1 h
  have hsplit : done ++ instr :: others ++ rest = done ++ instr :: (others ++ rest) := by
    rw [List.append_assoc, List.cons_append]
  exact runThrough_eq_error_iff.2 ⟨done, instr, others ++ rest, start, hsplit, hdone, hfails⟩

theorem mem_startsThrough_cons :
    start ∈ startsThrough setup m (instr :: rest) ↔
      start = m ∨
        ∃ next, step setup instr m = .ok () next ∧ start ∈ startsThrough setup next rest := by
  rw [startsThrough, List.mem_cons]
  cases step setup instr m with
  | ok _ next => simp
  | error error failed => simp

/-- **An instruction starts where those before it have been carried out.** -/
theorem mem_startsThrough_iff : start ∈ startsThrough setup m code ↔
    ∃ done instr rest, code = done ++ instr :: rest ∧ runThrough setup done m = .ok () start := by
  induction code generalizing m with
  | nil => simp [startsThrough]
  | cons first others ih =>
    rw [mem_startsThrough_cons]
    constructor
    · rintro (rfl | ⟨next, hstep, hstart⟩)
      · exact ⟨[], first, others, rfl, rfl⟩
      · obtain ⟨done, instr, rest, rfl, hdone⟩ := ih.1 hstart
        exact ⟨first :: done, instr, rest, rfl, runThrough_cons_eq_ok_iff.2 ⟨next, hstep, hdone⟩⟩
    · rintro ⟨done, instr, rest, hsplit, hdone⟩
      cases done with
      | nil =>
        cases hdone
        exact .inl rfl
      | cons passed done =>
        cases hsplit
        obtain ⟨next, hstep, hothers⟩ := runThrough_cons_eq_ok_iff.1 hdone
        exact .inr ⟨next, hstep, ih.2 ⟨done, instr, rest, rfl, hothers⟩⟩

/-! ### Where a run has come to -/

/-- Instructions that are carried out are passed, and the code stays as it is. -/
theorem passed_of_runThrough (h : runThrough setup done m = .ok () next) :
    next.code = m.code ∧ next.ip = m.ip + done.length := by
  induction done generalizing m with
  | nil =>
    cases h
    exact ⟨rfl, (Int.add_zero _).symm⟩
  | cons instr rest ih =>
    obtain ⟨after, hstep, hrest⟩ := runThrough_cons_eq_ok_iff.1 h
    obtain ⟨stack, store, _, rfl⟩ := step_eq_ok hstep
    obtain ⟨hcode, hip⟩ := ih hrest
    refine ⟨hcode, hip.trans ?_⟩
    rw [List.length_cons]
    show m.ip + 1 + _ = _
    omega

theorem left_of_runThrough (hleft : m.left = done ++ rest)
    (h : runThrough setup done m = .ok () next) : next.left = rest := by
  obtain ⟨hcode, hip⟩ := passed_of_runThrough h
  rw [left, hcode, hip]
  exact upcoming_add hleft

/-! ### Results of a run -/

theorem run_eq_ok_iff {values : Array Int} : run setup m = .ok values next ↔
    runThrough setup m.left m = .ok () next ∧ values = next.store.printed := by
  rw [run_eq]
  cases runThrough setup m.left m with
  | ok _ last =>
    constructor
    · intro h
      cases h
      exact ⟨rfl, rfl⟩
    · rintro ⟨h, rfl⟩
      cases h
      rfl
  | error error failed => exact ⟨nofun, nofun⟩

/-- **A run fails where an instruction fails**, and it starts where those before it have been
carried out. -/
theorem run_eq_error_iff : run setup m = .error error m' ↔
    ∃ done instr rest start, m.left = done ++ instr :: rest ∧
      runThrough setup done m = .ok () start ∧ step setup instr start = .error error m' := by
  rw [← runThrough_eq_error_iff, run_eq]
  cases runThrough setup m.left m with
  | ok _ last => exact ⟨nofun, nofun⟩
  | error failure failed =>
    constructor
    · intro h
      cases h
      rfl
    · intro h
      cases h
      rfl

theorem next_of_ip {place : Nat} (hip : m.ip = place) : m.next = m.code[place]? := by
  rw [Machine.next, left, hip, upcoming_natCast, List.head?_drop]

theorem next_of_left (hleft : m.left = instr :: rest) : m.next = some instr := by
  rw [Machine.next, hleft, List.head?_cons]

/-! ### More instructions -/

section Append
variable {more : List Instr}

theorem At.append (h : m.At (instr :: rest)) (more : List Instr) :
    (m.append more).At (instr :: rest ++ more) := by
  obtain ⟨passed, hip, hdrop⟩ := h
  have hle : passed ≤ m.code.length := by
    have hne : m.code.drop passed ≠ [] := by
      rw [hdrop]
      exact List.cons_ne_nil instr rest
    rw [Ne, List.drop_eq_nil_iff] at hne
    omega
  refine ⟨passed, hip, ?_⟩
  show (m.code ++ more).drop passed = _
  rw [List.drop_append_of_le_length hle, hdrop]

theorem append_of_step (h : step setup instr m = .ok () next) :
    step setup instr (m.append more) = .ok () (next.append more) := by
  obtain ⟨stack, store, heffect, rfl⟩ := step_eq_ok h
  exact step_of_done heffect

/-- A failing instruction fails in the same way with more instructions behind it. -/
theorem append_of_step_error (hat : m.At (instr :: rest))
    (h : step setup instr m = .error error m') :
    step setup instr (m.append more) = .error error (m'.append more) := by
  have hnext : (m.append more).next = m.next := by
    rw [hat.next]
    exact (hat.append more).next
  obtain ⟨fault, stack, heffect, rfl, rfl⟩ | ⟨refusal, stack, store, heffect, rfl, rfl⟩ :=
    step_eq_error h
  · have hstep := step_of_faulted (m := m.append more) heffect
    rw [hnext] at hstep
    exact hstep
  · exact step_of_refused heffect

theorem append_of_runThrough (h : runThrough setup code m = .ok () next) :
    runThrough setup code (m.append more) = .ok () (next.append more) := by
  induction code generalizing m with
  | nil =>
    cases h
    rfl
  | cons instr rest ih =>
    obtain ⟨after, hstep, hrest⟩ := runThrough_cons_eq_ok_iff.1 h
    exact runThrough_cons_eq_ok_iff.2 ⟨after.append more, append_of_step hstep, ih hrest⟩

theorem append_of_runThrough_error (hat : m.At code)
    (h : runThrough setup code m = .error error m') :
    runThrough setup code (m.append more) = .error error (m'.append more) := by
  obtain ⟨done, instr, rest, start, rfl, hdone, hfails⟩ := runThrough_eq_error_iff.1 h
  obtain ⟨hcode, hip⟩ := passed_of_runThrough hdone
  have hstart : start.At (instr :: rest) := hat.passed hcode hip
  exact runThrough_eq_error_iff.2 ⟨done, instr, rest, start.append more, rfl,
    append_of_runThrough hdone, append_of_step_error hstart hfails⟩

end Append

/-- **Code can be given to a machine in parts.** A run of all the code is a run of its first part
and, if that returns, another run with the second part added; it ends with the same result or
error and in the same state. If the first part fails, so does the whole, in the same way. -/
theorem run_load_append (setup : Setup) (first second : List Instr) :
    run setup (load (first ++ second)) =
      match run setup (load first) with
      | .ok _ m => run setup (m.append second)
      | .error error m => .error error (m.append second) := by
  have hload : load (first ++ second) = (load first).append second := rfl
  rw [run_eq, run_eq setup (load first), (at_load _).left, (at_load _).left, hload]
  cases hfirst : runThrough setup first (load first) with
  | ok _ next =>
    obtain ⟨hcode, hip⟩ := passed_of_runThrough hfirst
    have hat : (next.append second).At second := by
      refine (at_load (first ++ second)).passed ?_ hip
      show next.code ++ second = _
      rw [hcode]
      rfl
    rw [runThrough_append_of_ok (append_of_runThrough hfirst)]
    dsimp only
    rw [run_eq, hat.left]
  | error error failed =>
    rw [runThrough_append_of_error (append_of_runThrough_error (at_load first) hfirst)]

end Machine

end LetPrint
