import LetPrint.Proofs.Safety
import LetPrint.Proofs.StraightLine

/-! Compiled programs bind every name once, and before its use.

The code of a program does not show where its statements begin and end, but what the parser
checks of the statements holds of the code as a whole: its targets are the declared names, all
different (`targets_code`, `Scoped.nodup`), and a name is pushed only behind its own binding or
in the let statement that binds it (`definedAt_of_push`). A run therefore only adds variables,
and a name that is read has the value that its let statement computed (`single_assignment`). -/
namespace LetPrint

/-! ### The names in some code -/

section Names
variable {name : String}

theorem Expr.targets_code (e : Expr) : targets e.code = [] := by
  induction e with
  | literal => rfl
  | var => rfl
  | binary left op right span ihl ihr =>
    rw [Expr.code, targets_append, targets_append, ihl, ihr]
    cases op <;> rfl

theorem Stmt.targets_code (s : Stmt) : targets s.code = s.declared := by
  rw [s.code_eq, targets_append, s.value.targets_code]
  cases s <;> rfl

/-- The code of a program binds what the program declares, in the same order. -/
theorem Program.targets_code (program : Program) : targets program.code = program.declared := by
  induction program with
  | nil => rfl
  | cons s rest ih =>
    rw [code_cons, targets_append, ih, s.targets_code]
    rfl

theorem Expr.mem_names_of_push {e : Expr}
    (h : (⟨.push, some (.reference name)⟩ : Instr) ∈ e.code) : name ∈ e.names := by
  induction e with
  | literal value span => simp [Expr.code] at h
  | var token span =>
    obtain rfl : name = token.raw := by simpa [Expr.code] using h
    exact List.mem_singleton_self _
  | binary left op right span ihl ihr =>
    rw [Expr.code, List.append_assoc, List.mem_append, List.mem_append, List.mem_singleton] at h
    rw [Expr.names, List.mem_append]
    obtain h | h | h := h
    · exact .inl (ihl h)
    · exact .inr (ihr h)
    · cases op <;> cases h

theorem mem_targets_iff {code : List Instr} :
    name ∈ targets code ↔ (⟨.store, some (.text name)⟩ : Instr) ∈ code := by
  simp only [targets, List.mem_filterMap, target?_eq_some, exists_eq_right]

namespace Scoped
variable {known : List String} {program : Program}

/-- No name is declared twice. -/
theorem nodup (h : Scoped known program) (hknown : known.Nodup) :
    (known ++ program.declared).Nodup := by
  induction h with
  | nil known =>
    rw [Program.declared, List.flatMap_nil, List.append_nil]
    exact hknown
  | @cons known s rest hnew _ _ ih =>
    have hdeclared : s.declared.Nodup := by cases s <;> simp [Stmt.declared]
    have hboth : (known ++ s.declared).Nodup :=
      List.nodup_append.2 ⟨hknown, hdeclared, fun n hn m hm heq => hnew m hm (heq ▸ hn)⟩
    rw [Program.declared, List.flatMap_cons, ← List.append_assoc]
    exact ih hboth

/-- Every name in an expression is known, or declared before it or by its statement. -/
theorem known_of_mem {before after : Program} {s : Stmt} (h : Scoped known (before ++ s :: after))
    (hname : name ∈ s.value.names) : name ∈ known ++ before.declared ++ s.declared := by
  induction before generalizing known with
  | nil =>
    obtain ⟨⟩ | ⟨_, hnames, _⟩ := h
    rw [Program.declared, List.flatMap_nil, List.append_nil]
    exact hnames name hname
  | cons first others ih =>
    obtain ⟨⟩ | ⟨_, _, hrest⟩ := h
    rw [Program.declared, List.flatMap_cons, ← List.append_assoc]
    exact ih hrest

end Scoped

end Names

/-! ### Places in the code of a program -/

/-- Every place in the code of a program is a place in the code of one statement. -/
theorem Program.exists_stmt_of_getElem? {program : Program} {i : Nat} {instr : Instr}
    (h : program.code[i]? = some instr) :
    ∃ (before : Program) (s : Stmt) (after : Program) (k : Nat),
      program = before ++ s :: after ∧ i = before.code.length + k ∧ s.code[k]? = some instr := by
  induction program generalizing i with
  | nil => cases h
  | cons s rest ih =>
    rw [code_cons] at h
    by_cases hi : i < s.code.length
    · rw [List.getElem?_append_left hi] at h
      exact ⟨[], s, rest, i, rfl, (Nat.zero_add i).symm, h⟩
    · rw [List.getElem?_append_right (Nat.le_of_not_lt hi)] at h
      obtain ⟨before, s', after, k, rfl, hk, hinstr⟩ := ih h
      refine ⟨s :: before, s', after, k, rfl, ?_, hinstr⟩
      rw [code_cons, List.length_append]
      omega

/-- Why a name may be pushed at a place: it is bound at an earlier one, or the place is in the
let statement that binds it at its end. -/
inductive DefinedAt (program : Program) (name : String) (i : Nat) : Prop
  | earlier {j : Nat} : j < i → program.code[j]? = some ⟨.store, some (.text name)⟩ →
    DefinedAt program name i
  | own {before after : Program} {token : Token} {value : Expr} {span : Span} :
    program = before ++ .letStmt token value span :: after → token.raw = name →
    before.code.length ≤ i → i < before.code.length + value.code.length →
    program.code[before.code.length + value.code.length]? = some ⟨.store, some (.text name)⟩ →
    DefinedAt program name i

theorem Program.code_letStmt (before after : Program) (token : Token) (value : Expr) (span : Span) :
    Program.code (before ++ .letStmt token value span :: after) =
      before.code ++ (value.code ++ ⟨.store, some (.text token.raw)⟩ :: Program.code after) := by
  rw [code_append, code_cons, Stmt.code, List.append_assoc, List.singleton_append]

/-- **A name is pushed only where it may be.** -/
theorem definedAt_of_push {program : Program} {name : String} {i : Nat} (h : Scoped [] program)
    (hpush : program.code[i]? = some ⟨.push, some (.reference name)⟩) :
    DefinedAt program name i := by
  obtain ⟨before, s, after, k, rfl, rfl, hinstr⟩ := Program.exists_stmt_of_getElem? hpush
  have hk : k < s.value.code.length := by
    by_contra hlast
    rw [s.code_eq, List.getElem?_append_right (Nat.le_of_not_lt hlast),
      List.getElem?_singleton] at hinstr
    cases s <;> simp [Stmt.last] at hinstr
  rw [s.code_eq, List.getElem?_append_left hk] at hinstr
  have hname := Expr.mem_names_of_push (List.mem_of_getElem? hinstr)
  have hknown := h.known_of_mem hname
  rw [List.nil_append] at hknown
  rcases List.mem_append.1 hknown with hbefore | hown
  · rw [← Program.targets_code, mem_targets_iff] at hbefore
    obtain ⟨j, hj, hstore⟩ := List.mem_iff_getElem.1 hbefore
    refine .earlier (j := j) (by omega) ?_
    rw [Program.code_append, List.getElem?_append_left hj, List.getElem?_eq_getElem hj, hstore]
  · cases s with
    | printStmt => exact absurd hown List.not_mem_nil
    | letStmt token value span =>
      obtain rfl := List.mem_singleton.1 hown
      refine .own rfl rfl (Nat.le_add_right ..) (Nat.add_lt_add_left hk _) ?_
      rw [Program.code_letStmt, ← List.append_assoc, List.getElem?_append_right (by simp)]
      simp

/-! ### Where a value comes from -/

/-- A let statement gives a name its value, after the statements before it. -/
def Computes (sink : Option Sink) (program : Program) (store : Store) (name : String)
    (value : Int) : Prop :=
  ∃ (before after : Program) (token : Token) (e : Expr) (span : Span) (s : Store),
    program = before ++ .letStmt token e span :: after ∧ token.raw = name ∧
      Eval.executeAll sink before.nodes store = .ok () s ∧ e.node.value s.bindings = .ok value

section Values
variable {sink : Option Sink} {program : Program} {s : Stmt} {store store' next : Store}
variable {name : String} {value : Int}

/-- A statement that is executed binds the name that it declares to its value, and no other. -/
theorem find?_of_execute (h : Eval.execute sink s.node store = .ok () next)
    (hfind : next.bindings.find? name = some value) :
    store.bindings.find? name = some value ∨
      name ∈ s.declared ∧ s.value.node.value store.bindings = .ok value := by
  cases hv : s.value.node.value store.bindings with
  | error error =>
    rw [execute_of_error hv] at h
    cases h
  | ok computed =>
    cases s with
    | letStmt token e span =>
      rw [Eval.execute_let sink store (e := e) token span hv] at h
      cases h
      rw [Store.bind, Bindings.find?_insert] at hfind
      split at hfind
      · next heq =>
        cases hfind
        exact .inr ⟨List.mem_singleton.2 heq, rfl⟩
      · exact .inl hfind
    | printStmt e span =>
      rw [Eval.execute_print sink store (e := e) span hv] at h
      have hbindings := Machine.bindings_of_print sink computed store
      cases hprint : Store.print sink computed store with
      | error refusal failed =>
        simp only [Eval.print, hprint] at h
        cases h
      | ok _ printed =>
        simp only [Eval.print, hprint] at h
        cases h
        rw [hprint] at hbindings
        exact .inl (hbindings ▸ hfind)

/-- **A variable has the value that a let statement computed**, if it was not bound before. -/
theorem computes_of_executeAll (h : Eval.executeAll sink program.nodes store = .ok () store')
    (hfind : store'.bindings.find? name = some value) :
    store.bindings.find? name = some value ∨ Computes sink program store name value := by
  induction program generalizing store with
  | nil =>
    cases h
    exact .inl hfind
  | cons s rest ih =>
    rw [Program.nodes_cons] at h
    cases hexec : Eval.execute sink s.node store with
    | error error failed =>
      rw [Eval.executeAll_of_error sink hexec] at h
      cases h
    | ok _ next =>
      rw [Eval.executeAll_of_ok sink hexec] at h
      obtain hnext | ⟨before, after, token, e, span, s', rfl, hname, hbefore, hvalue⟩ := ih h
      · refine (find?_of_execute hexec hnext).imp_right fun ⟨hdeclared, hv⟩ => ?_
        cases s with
        | printStmt => exact absurd hdeclared List.not_mem_nil
        | letStmt token e span =>
          have hname := (List.mem_singleton.1 hdeclared).symm
          exact ⟨[], rest, token, e, span, store, rfl, hname, rfl, hv⟩
      · refine .inr ⟨s :: before, after, token, e, span, s', rfl, hname, ?_, hvalue⟩
        rw [Program.nodes_cons, Eval.executeAll_of_ok sink hexec]
        exact hbefore

end Values

namespace Machine

/-- The machine at the end of a let statement that has computed a value and is about to bind
the name to it. -/
structure AboutToBind (program : Program) (name : String) (value : Int) (m : Machine) : Prop where
  next : m.next = some ⟨.store, some (.text name)⟩
  stack : m.stack = [value]
  computed : ∃ (before after : Program) (token : Token) (e : Expr) (span : Span),
    program = before ++ .letStmt token e span :: after ∧ token.raw = name ∧
      m.ip = (before.code.length + e.code.length : Nat) ∧ e.node.value m.store.bindings = .ok value

section Reads
variable {setup : Setup} {sink : Option Sink} {m m' next : Machine} {first rest : List Instr}
variable {program : Program} {name : String} {value : Int}

theorem startsThrough_append (h : runThrough setup first m = .ok () next) (rest : List Instr) :
    startsThrough setup m (first ++ rest) =
      startsThrough setup m first ++ startsThrough setup next rest := by
  induction first generalizing m with
  | nil =>
    cases h
    rfl
  | cons instr others ih =>
    rw [List.cons_append, startsThrough, startsThrough]
    cases hstep : step setup instr m with
    | error error failed =>
      rw [runThrough_of_error hstep] at h
      cases h
    | ok _ after =>
      rw [runThrough_of_ok hstep] at h
      simp only [ih h, List.cons_append]

/-- Where a let statement computes a value, the machine is about to bind it. -/
theorem exists_aboutToBind {before after : Program} {token : Token} {e : Expr} {span : Span}
    {store : Store} (hsplit : program = before ++ .letStmt token e span :: after)
    (hbefore : Eval.executeAll sink before.nodes ∅ = .ok () store)
    (hvalue : e.node.value store.bindings = .ok value) :
    ∃ start ∈ starts (.plain sink) (load program.code), AboutToBind program token.raw value start ∧
      start.ip = (before.code.length + e.code.length : Nat) := by
  have hcode := Program.code_letStmt before after token e span
  rw [← hsplit] at hcode
  have hat : (load program.code).At
      (before.code ++ (e.code ++ ⟨.store, some (.text token.raw)⟩ :: Program.code after)) :=
    hcode ▸ at_load program.code
  have hbind : ((load program.code).storing before.code.length store).At
      (e.code ++ ⟨.store, some (.text token.raw)⟩ :: Program.code after) := hat.passed rfl rfl
  have hstart := hbind.ahead [value]
  have hfirst := runThrough_of_executeAll (m := load program.code) sink hbefore []
  have hsecond := runThrough_code (m := (load program.code).storing before.code.length store) sink
    hvalue []
  rw [List.append_nil] at hfirst hsecond
  have hip : (((load program.code).storing before.code.length store).ahead e.code.length
      [value]).ip = (before.code.length + e.code.length : Nat) := by
    simp [Machine.ahead, storing, load]
  refine ⟨_, ?_, ⟨hstart.next, rfl, before, after, token, e, span, hsplit, rfl, hip, hvalue⟩, hip⟩
  rw [starts, hat.left, startsThrough_append hfirst, startsThrough_append hsecond, startsThrough]
  exact List.mem_append_right _ (List.mem_append_right _ (List.mem_cons_self ..))

theorem stack_of_step_reference
    (h : step (.plain sink) ⟨.push, some (.reference name)⟩ m = .ok () next) :
    ∃ value, m.store.bindings.find? name = some value ∧ next.stack = value :: m.stack := by
  cases hvalue : m.store.bindings.find? name with
  | none =>
    rw [step_unbound sink m hvalue] at h
    cases h
  | some value =>
    rw [step_reference sink m hvalue] at h
    cases h
    exact ⟨value, rfl, rfl⟩

/-- **A name that is read has the value that its let statement computed**, earlier in the run. -/
theorem exists_aboutToBind_of_read (hm : m ∈ starts (.plain sink) (load program.code))
    (hstep : step (.plain sink) ⟨.push, some (.reference name)⟩ m = .ok () next) :
    ∃ value, next.stack = value :: m.stack ∧
      ∃ start ∈ starts (.plain sink) (load program.code),
        AboutToBind program name value start ∧ start.ip < m.ip := by
  obtain ⟨value, hfind, hstack⟩ := stack_of_step_reference hstep
  refine ⟨value, hstack, ?_⟩
  rw [starts_load] at hm
  obtain ⟨before, s, after, store, rfl, hbefore, hinside⟩ | ⟨store, _, hm⟩ :=
    mem_starts_program sink hm
  · cases hinside with
    | @ahead k above =>
      obtain hempty | ⟨first, others, token, e, span, s', rfl, rfl, hfirst, hvalue⟩ :=
        computes_of_executeAll hbefore hfind
      · cases hempty
      · have hsplit : first ++ .letStmt token e span :: others ++ s :: after =
            first ++ .letStmt token e span :: (others ++ s :: after) := List.append_assoc ..
        obtain ⟨start, hstart, habout, hip⟩ := exists_aboutToBind hsplit hfirst hvalue
        refine ⟨start, hstart, habout, ?_⟩
        rw [hip, Program.code_letStmt]
        simp only [Machine.ahead, storing, load, List.length_append, List.length_cons]
        omega
  · exact absurd hm List.not_mem_nil

end Reads

end Machine

/-! ### Whole programs -/

/-- What a program shows in its code, and in every run of its code. -/
structure SingleAssignment (program : Program) : Prop where
  /-- No two instructions bind the same name. -/
  distinct : (targets program.code).Nodup
  /-- A name is pushed behind its binding, or in the let statement that binds it. -/
  defined : ∀ i name, program.code[i]? = some ⟨.push, some (.reference name)⟩ →
    DefinedAt program name i
  /-- Variables are only added, and keep their values. -/
  grows : ∀ setup, (Machine.history setup (.load program.code)).Pairwise Machine.Grows
  /-- An instruction that binds a name finds it unbound. -/
  binds_new : ∀ setup, ∀ m ∈ Machine.starts setup (.load program.code), ∀ name,
    m.next = some ⟨.store, some (.text name)⟩ → name ∉ m.store.bindings.names
  /-- An instruction that reads a name, if it can, pushes the value that the let statement of
  the name computed. -/
  reads : ∀ sink, ∀ m ∈ Machine.starts (.plain sink) (.load program.code), ∀ name next,
    m.next = some ⟨.push, some (.reference name)⟩ →
    Machine.step (.plain sink) ⟨.push, some (.reference name)⟩ m = .ok () next →
      ∃ value, next.stack = value :: m.stack ∧
        ∃ start ∈ Machine.starts (.plain sink) (.load program.code),
          Machine.AboutToBind program name value start ∧ start.ip < m.ip

/-- **A text that compiles is single-assignment**, and defines its names before their use. -/
theorem single_assignment {text : String} {code : List Instr} (h : compileText text = .ok code) :
    ∃ program, readProgram text = .ok program ∧ program.code = code ∧
      SingleAssignment program := by
  obtain ⟨program, hread, hcode⟩ := compileText_eq_ok.1 h
  have hscoped := (wellFormed_of_readProgram hread).isScoped
  have hdistinct : (targets program.code).Nodup := by
    rw [Program.targets_code]
    exact hscoped.nodup List.nodup_nil
  have hfresh : (Machine.load program.code).Fresh program.code := hdistinct
  have hat := Machine.at_load program.code
  refine ⟨program, hread, hcode, hdistinct, ?_, ?_, ?_, ?_⟩
  · exact fun i name hpush => definedAt_of_push hscoped hpush
  · intro setup
    rw [Machine.history_eq, hat.left]
    exact Machine.pairwise_historyThrough hfresh
  · intro setup m hm name hnext
    rw [Machine.starts, hat.left] at hm
    exact Machine.new_of_starts hat hfresh hm hnext
  · exact fun sink m hm name next _ hstep => Machine.exists_aboutToBind_of_read hm hstep

/-- A name that is used twice, and one that is used while it is declared. -/
def usedTwiceText : String :=
  "let a = 3; let b = a * a; print(b); let c = c / a;"

def usedTwiceCode : List Instr := [
  ⟨.push, some (.immediate 3)⟩, ⟨.store, some (.text "a")⟩,
  ⟨.push, some (.reference "a")⟩, ⟨.push, some (.reference "a")⟩, ⟨.mul, none⟩,
  ⟨.store, some (.text "b")⟩, ⟨.push, some (.reference "b")⟩, ⟨.print, none⟩,
  ⟨.push, some (.reference "c")⟩, ⟨.push, some (.reference "a")⟩, ⟨.div, none⟩,
  ⟨.store, some (.text "c")⟩]

theorem single_assignment_usedTwiceText :
    compileText usedTwiceText = .ok usedTwiceCode ∧
      ∃ program, readProgram usedTwiceText = .ok program ∧ program.code = usedTwiceCode ∧
        SingleAssignment program := by
  have hcompile : compileText usedTwiceText = .ok usedTwiceCode := by decide +kernel
  exact ⟨hcompile, single_assignment hcompile⟩

end LetPrint
