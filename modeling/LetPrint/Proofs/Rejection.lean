import LetPrint.Proofs.ScopedRuns

/-! Trees that are no programs, on both backends.

Whatever has a value, and whatever has instructions, is an expression of the language at
every depth (`isExpr_of_value`, `isExpr_of_emission`). So statements that can be executed and
statements that can be translated are those of a program, and programs run alike on both
backends. A tree that is no program is refused by both, at different times: the translation
refuses it before anything is run, the evaluator only when it comes to it, if it does not
stop earlier for another reason. `rejections_agree` says how the two refusals go together. -/
namespace LetPrint

/-- A node that is an expression of the language. -/
def Node.IsExpr (node : Node) : Prop :=
  ∃ e : Expr, node = e.node

/-- A node that is a statement of the language. -/
def Node.IsStmt (node : Node) : Prop :=
  ∃ s : Stmt, node = s.node

/-! ### What can be translated -/

theorem Emission.refused_append {first second : Emission} :
    (first ++ second).refused = none ↔ first.refused = none ∧ second.refused = none := by
  obtain ⟨code, refused⟩ := first
  cases refused with
  | none => exact ⟨fun h => ⟨rfl, h⟩, And.right⟩
  | some kind => exact ⟨fun h => (nomatch h), fun h => (nomatch h.left)⟩

theorem Emission.result_eq_ok {e : Emission} {code : List Instr} (h : e.result = .ok code) :
    e.refused = none := by
  cases hrefused : e.refused with
  | none => rfl
  | some kind =>
    rw [result, hrefused] at h
    cases h

theorem Emission.result_eq_error {e : Emission} {d : Diagnostic} :
    e.result = .error d ↔ ∃ kind, e.refused = some kind ∧ d = diagnostic kind := by
  cases hrefused : e.refused with
  | none => simp [result, hrefused]
  | some kind => simp [result, hrefused, eq_comm]

namespace Node

theorem isExpr_binary {left right : Node} (op : BinOp) (span : Span) (hleft : left.IsExpr)
    (hright : right.IsExpr) : (binary left (.known op) right span).IsExpr := by
  obtain ⟨l, rfl⟩ := hleft
  obtain ⟨r, rfl⟩ := hright
  exact ⟨.binary l op r span, rfl⟩

/-- A node with instructions is an expression. -/
theorem isExpr_of_emission : (node : Node) → node.emission.refused = none → node.IsExpr
  | literal value span, _ => ⟨.literal value span, rfl⟩
  | var name span, _ => ⟨.var name span, rfl⟩
  | binary left op right span, h => by
    simp only [emission, Emission.refused_append] at h
    obtain ⟨⟨hleft, hright⟩, hop⟩ := h
    cases op with
    | known op =>
      have hl := isExpr_of_emission left hleft
      exact isExpr_binary op span hl (isExpr_of_emission right hright)
    | other text => cases hop
  | letStmt .., h | printStmt .., h | foreign .., h | list _, h | atom _, h => nomatch h

/-- A node with a value is an expression. -/
theorem isExpr_of_value {bindings : Bindings Int} : (node : Node) → {value : Int} →
    node.value bindings = .ok value → node.IsExpr
  | literal value span, _, _ => ⟨.literal value span, rfl⟩
  | var name span, _, _ => ⟨.var name span, rfl⟩
  | binary left op right span, _, h => by
    simp only [value, bind, Except.bind] at h
    split at h
    · cases h
    rename_i hleft
    split at h
    · cases h
    rename_i hright
    cases op with
    | known op =>
      have hl := isExpr_of_value left hleft
      exact isExpr_binary op span hl (isExpr_of_value right hright)
    | other text => cases h
  | letStmt .., _, h | printStmt .., _, h | foreign .., _, h | list _, _, h | atom _, _, h =>
    nomatch h

theorem isStmt_letStmt {value : Node} (name : Token) (span : Span) (h : value.IsExpr) :
    (letStmt name value span).IsStmt := by
  obtain ⟨e, rfl⟩ := h
  exact ⟨.letStmt name e span, rfl⟩

theorem isStmt_printStmt {value : Node} (span : Span) (h : value.IsExpr) :
    (printStmt value span).IsStmt := by
  obtain ⟨e, rfl⟩ := h
  exact ⟨.printStmt e span, rfl⟩

/-- A node with the instructions of a statement is a statement. -/
theorem isStmt_of_stmtEmission {node : Node} (h : node.stmtEmission.refused = none) :
    node.IsStmt := by
  cases node with
  | letStmt name value span =>
    rw [stmtEmission, Emission.refused_append] at h
    exact isStmt_letStmt name span (value.isExpr_of_emission h.left)
  | printStmt value span =>
    rw [stmtEmission, Emission.refused_append] at h
    exact isStmt_printStmt span (value.isExpr_of_emission h.left)
  | literal | var | binary | foreign | list | atom => cases h

theorem IsStmt.stmtEmission {node : Node} (h : node.IsStmt) : node.stmtEmission.refused = none := by
  obtain ⟨s, rfl⟩ := h
  rw [Stmt.emission_eq]
  rfl

end Node

theorem exists_program {nodes : List Node} (h : ∀ node ∈ nodes, node.IsStmt) :
    ∃ program : Program, nodes = program.nodes := by
  induction nodes with
  | nil => exact ⟨[], rfl⟩
  | cons node nodes ih =>
    obtain ⟨s, rfl⟩ := h node (List.mem_cons_self ..)
    obtain ⟨program, rfl⟩ := ih fun other hother => h other (List.mem_cons_of_mem _ hother)
    exact ⟨s :: program, rfl⟩

/-- The translation refuses the statement at a place, after those before it. -/
def RefusedAt (nodes : List Node) (i : Nat) (d : Diagnostic) : Prop :=
  (∃ code, generate (nodes.take i) = .ok code) ∧
    ∃ node, nodes[i]? = some node ∧ node.stmtEmission.result = .error d

section Translation
variable {node : Node} {nodes : List Node} {first : List Instr} {d : Diagnostic} {i : Nat}

theorem generate_cons_of_ok (h : node.stmtEmission.result = .ok first) (nodes : List Node) :
    generate (node :: nodes) = (generate nodes).map fun later => first ++ later := by
  unfold generate
  show (node.stmtEmission ++ emissionOf nodes).result = _
  generalize node.stmtEmission = e at h ⊢
  obtain ⟨code, _ | kind⟩ := e
  · cases h
    obtain ⟨later, _ | kind⟩ := emissionOf nodes <;> rfl
  · cases h

theorem generate_cons_of_error (h : node.stmtEmission.result = .error d) (nodes : List Node) :
    generate (node :: nodes) = .error d := by
  unfold generate
  show (node.stmtEmission ++ emissionOf nodes).result = _
  generalize node.stmtEmission = e at h ⊢
  obtain ⟨code, _ | kind⟩ := e
  · cases h
  · exact h

/-- Statements that can be translated are those of a program. -/
theorem isStmt_of_generate {code : List Instr} (h : generate nodes = .ok code) :
    ∀ node ∈ nodes, node.IsStmt := by
  induction nodes generalizing code with
  | nil => exact fun node hnode => absurd hnode List.not_mem_nil
  | cons node nodes ih =>
    cases hfirst : node.stmtEmission.result with
    | error d =>
      rw [generate_cons_of_error hfirst] at h
      cases h
    | ok first =>
      rw [generate_cons_of_ok hfirst] at h
      cases hlater : generate nodes with
      | error d =>
        rw [hlater] at h
        cases h
      | ok later =>
        have hnode := Node.isStmt_of_stmtEmission (Emission.result_eq_ok hfirst)
        exact List.forall_mem_cons.2 ⟨hnode, ih hlater⟩

theorem refusedAt_zero : RefusedAt (node :: nodes) 0 d ↔ node.stmtEmission.result = .error d := by
  constructor
  · rintro ⟨_, other, hother, hrefused⟩
    cases hother
    exact hrefused
  · exact fun h => ⟨⟨[], rfl⟩, node, rfl, h⟩

/-- After a statement that is translated, the refused one is among those that follow. -/
theorem refusedAt_succ :
    RefusedAt (node :: nodes) (i + 1) d ↔
      (∃ first, node.stmtEmission.result = .ok first) ∧ RefusedAt nodes i d := by
  unfold RefusedAt
  rw [List.take_succ_cons, List.getElem?_cons_succ, ← and_assoc]
  refine and_congr_left fun _ => ?_
  cases hfirst : node.stmtEmission.result with
  | error refusal => simp [generate_cons_of_error hfirst]
  | ok first =>
    rw [generate_cons_of_ok hfirst]
    cases generate (nodes.take i) <;> simp [Except.map]

/-- **A translation fails** where it refuses a statement. -/
theorem generate_eq_error : generate nodes = .error d ↔ ∃ i, RefusedAt nodes i d := by
  induction nodes with
  | nil =>
    refine ⟨fun h => (nomatch h), ?_⟩
    rintro ⟨i, _, node, hnode, _⟩
    cases hnode
  | cons node nodes ih =>
    -- The statement refused is the first one or one of the others.
    rw [← Nat.or_exists_add_one, refusedAt_zero]
    simp only [refusedAt_succ, exists_and_left, ← ih]
    cases hfirst : node.stmtEmission.result with
    | error refusal => simp [generate_cons_of_error hfirst]
    | ok first =>
      rw [generate_cons_of_ok hfirst]
      cases generate nodes <;> simp [Except.map]

end Translation

/-! ### What can be executed -/

/-- Statements that can be executed one after the other where some variables are bound, the
values of the print statements among them, and the variables that are bound in the end. -/
inductive Prints : Bindings Int → List Node → List Int → Bindings Int → Prop
  | nil (bindings : Bindings Int) : Prints bindings [] [] bindings
  | letStmt {bindings final : Bindings Int} {e : Node} {value : Int} {nodes : List Node}
    {values : List Int} (name : Token) (span : Span) : e.value bindings = .ok value →
    Prints (bindings.insert name.raw value) nodes values final →
      Prints bindings (.letStmt name e span :: nodes) values final
  | printStmt {bindings final : Bindings Int} {e : Node} {value : Int} {nodes : List Node}
    {values : List Int} (span : Span) : e.value bindings = .ok value →
    Prints bindings nodes values final →
      Prints bindings (.printStmt e span :: nodes) (value :: values) final

namespace Eval
variable {sink : Option Sink} {node : Node} {nodes : List Node} {s s' : Store} {error : EvalError}

theorem evaluate_eq_ok {value : Int} :
    evaluate node s = .ok value s' ↔ node.value s.bindings = .ok value ∧ s' = s := by
  rw [evaluate]
  cases node.value s.bindings <;> simp [eq_comm]

theorem store_of_evaluate_error (h : evaluate node s = .error error s') : s' = s := by
  rw [evaluate] at h
  split at h
  · cases h
  · cases h
    rfl

/-- A statement that is executed binds a name to a value or prints one. -/
theorem execute_eq_ok (h : execute sink node s = .ok () s') :
    (∃ name e span value, node = .letStmt name e span ∧ e.value s.bindings = .ok value ∧
      s' = s.bind name.raw value) ∨
    ∃ e span value, node = .printStmt e span ∧ e.value s.bindings = .ok value ∧
      print sink value s = .ok () s' := by
  cases node with
  | letStmt name e span =>
    simp only [execute, bind, EStateM.bind] at h
    split at h
    · next value between hvalue =>
      obtain ⟨hvalue, rfl⟩ := evaluate_eq_ok.1 hvalue
      cases h
      exact .inl ⟨name, e, span, value, rfl, hvalue, rfl⟩
    · cases h
  | printStmt e span =>
    simp only [execute, bind, EStateM.bind] at h
    split at h
    · next value between hvalue =>
      obtain ⟨hvalue, rfl⟩ := evaluate_eq_ok.1 hvalue
      exact .inr ⟨e, span, value, rfl, hvalue, h⟩
    · cases h
  | literal | var | binary | foreign | list | atom => cases h

/-- A statement that fails leaves the store as it was, unless the sink refuses the value that it
prints. -/
theorem execute_eq_error (h : execute sink node s = .error error s') :
    s' = s ∨ ∃ value refusal, error = .refused refusal ∧
      Store.print sink value s = .error refusal s' := by
  cases node with
  | letStmt name e span =>
    simp only [execute, bind, EStateM.bind] at h
    split at h
    · cases h
    · next hfails =>
      cases h
      exact .inl (store_of_evaluate_error hfails)
  | printStmt e span =>
    simp only [execute, bind, EStateM.bind] at h
    split at h
    · next value between hvalue =>
      obtain ⟨_, rfl⟩ := evaluate_eq_ok.1 hvalue
      rw [Eval.print] at h
      split at h
      · cases h
      · next refusal store hprint =>
        cases h
        exact .inr ⟨value, refusal, rfl, hprint⟩
    · next hfails =>
      cases h
      exact .inl (store_of_evaluate_error hfails)
  | literal | var | binary | foreign | list | atom =>
    cases h
    exact .inl rfl

/-- Without a sink nothing is refused. -/
theorem store_of_execute_error (h : execute none node s = .error error s') : s' = s := by
  obtain hstore | ⟨value, refusal, _, hprint⟩ := execute_eq_error h
  · exact hstore
  · cases hprint

theorem isStmt_of_execute (h : execute sink node s = .ok () s') : node.IsStmt := by
  obtain ⟨name, e, span, value, rfl, hvalue, _⟩ | ⟨e, span, value, rfl, hvalue, _⟩ :=
    execute_eq_ok h
  · exact Node.isStmt_letStmt name span (e.isExpr_of_value hvalue)
  · exact Node.isStmt_printStmt span (e.isExpr_of_value hvalue)

theorem isStmt_of_executeAll (h : executeAll sink nodes s = .ok () s') :
    ∀ node ∈ nodes, node.IsStmt := by
  induction nodes generalizing s with
  | nil => exact fun node hnode => absurd hnode List.not_mem_nil
  | cons node nodes ih =>
    cases hexec : execute sink node s with
    | error error failed =>
      rw [executeAll_of_error sink hexec] at h
      cases h
    | ok _ next =>
      rw [executeAll_of_ok sink hexec] at h
      exact List.forall_mem_cons.2 ⟨isStmt_of_execute hexec, ih h⟩

/-- **What a run of statements leaves behind.** It has printed the values of the print
statements, after what was printed before. -/
theorem prints_of_executeAll (h : executeAll none nodes s = .ok () s') :
    ∃ values, Prints s.bindings nodes values s'.bindings ∧
      s' = ⟨s'.bindings, s.printed ++ values.toArray, s.sunk⟩ := by
  induction nodes generalizing s with
  | nil =>
    cases h
    exact ⟨[], .nil _, by simp⟩
  | cons node nodes ih =>
    cases hexec : execute none node s with
    | error error failed =>
      rw [executeAll_of_error none hexec] at h
      cases h
    | ok _ next =>
      rw [executeAll_of_ok none hexec] at h
      obtain ⟨values, hprints, hstore⟩ := ih h
      obtain ⟨name, e, span, value, rfl, hvalue, rfl⟩ | ⟨e, span, value, rfl, hvalue, hprint⟩ :=
        execute_eq_ok hexec
      · exact ⟨values, .letStmt name span hvalue hprints, hstore⟩
      · cases hprint
        refine ⟨value :: values, .printStmt span hvalue hprints, hstore.trans ?_⟩
        have hprinted : s.printed.push value ++ values.toArray =
            s.printed ++ (value :: values).toArray := by
          apply Array.ext'
          simp
        rw [← hprinted]

end Eval

/-! ### Both refusals -/

/-- The run of the evaluator fails at a place in the statements. Those before it were
executed, and their values are what was printed; the failing one leaves it at that. -/
def FailsRunningAt (nodes : List Node) (j : Nat) (error : EvalError) : Prop :=
  ∃ (node : Node) (values : List Int) (bindings : Bindings Int),
    nodes[j]? = some node ∧ Prints ∅ (nodes.take j) values bindings ∧
      Eval.execute none node ⟨bindings, values.toArray, #[]⟩ =
        .error error ⟨bindings, values.toArray, #[]⟩ ∧
      Eval.interpret none nodes ∅ = .error error ⟨bindings, values.toArray, #[]⟩

section Refusals
variable {nodes : List Node}

/-- Statements that can be translated run alike on both backends. -/
theorem sameOutcome_of_generate {code : List Instr} (sink : Option Sink)
    (h : generate nodes = .ok code) :
    SameOutcome (Machine.run (.plain sink) (.load code)) (Eval.interpret sink nodes ∅) := by
  obtain ⟨program, rfl⟩ := exists_program (isStmt_of_generate h)
  have hcode : program.code = code := by
    rw [generate, Program.emission_eq] at h
    exact Except.ok.inj h
  rw [← hcode]
  exact sameOutcome_of_program sink program

/-- Statements that can be executed can be translated. -/
theorem exists_code_of_interpret {sink : Option Sink} {values : Array Int} {store : Store}
    (h : Eval.interpret sink nodes ∅ = .ok values store) : ∃ code, generate nodes = .ok code := by
  rw [Eval.interpret_eq] at h
  cases hexec : Eval.executeAll sink nodes ∅ with
  | error error failed =>
    rw [hexec] at h
    cases h
  | ok _ reached =>
    obtain ⟨program, rfl⟩ := exists_program (Eval.isStmt_of_executeAll hexec)
    refine ⟨program.code, ?_⟩
    rw [generate, Program.emission_eq]
    rfl

theorem interpret_eq_ok_iff {values : Array Int} {store : Store} :
    Eval.interpret none nodes ∅ = .ok values store ↔
      ∃ code m, generate nodes = .ok code ∧
        Machine.run (.plain none) (.load code) = .ok values m ∧ m.store = store := by
  constructor
  · intro h
    obtain ⟨code, hcode⟩ := exists_code_of_interpret h
    have hsame := sameOutcome_of_generate none hcode
    rw [h] at hsame
    generalize hrun : Machine.run (.plain none) (.load code) = result at hsame
    cases hsame with
    | returned printed m => exact ⟨code, m, hcode, hrun, rfl⟩
  · rintro ⟨code, m, hcode, hrun, rfl⟩
    have hsame := sameOutcome_of_generate none hcode
    rw [hrun] at hsame
    generalize Eval.interpret none nodes ∅ = result at hsame
    cases hsame
    rfl

/-- A run that fails does so at a place in the statements. -/
theorem failsRunningAt_of_executeAll {before after : List Node} {node : Node} {s failed : Store}
    {error : EvalError} (hbefore : Eval.executeAll none before ∅ = .ok () s)
    (hfails : Eval.execute none node s = .error error failed) :
    FailsRunningAt (before ++ node :: after) before.length error := by
  obtain rfl := Eval.store_of_execute_error hfails
  obtain ⟨values, hprints, hstore⟩ := Eval.prints_of_executeAll hbefore
  have hreached : failed = ⟨failed.bindings, values.toArray, #[]⟩ := by
    rw [hstore]
    show Store.mk _ (#[] ++ values.toArray) #[] = _
    rw [Array.empty_append]
  have hinterpret : Eval.interpret none (before ++ node :: after) ∅ = .error error failed := by
    rw [Eval.interpret_eq, Eval.executeAll_append_of_ok hbefore,
      Eval.executeAll_of_error none hfails]
  rw [hreached] at hfails hinterpret
  refine ⟨node, values, failed.bindings, ?_, ?_, hfails, hinterpret⟩
  · rw [List.getElem?_append_right (Nat.le_refl _), Nat.sub_self, List.getElem?_cons_zero]
  · rw [List.take_left]
    exact hprints

/-- **The evaluator does not get past what the translation refuses.** -/
theorem RefusedAt.exists_failsRunningAt {i : Nat} {d : Diagnostic} (h : RefusedAt nodes i d) :
    ∃ j, j ≤ i ∧ ∃ error, FailsRunningAt nodes j error := by
  obtain ⟨_, node, hnode, hrefused⟩ := h
  have hlt : i < nodes.length := (List.getElem?_eq_some_iff.1 hnode).1
  have hmem : node ∈ nodes.take (i + 1) := by
    rw [List.take_add_one, hnode]
    exact List.mem_append_right _ (List.mem_singleton_self node)
  -- What can be executed can be translated, so a run of these statements fails at one of them.
  cases hexec : Eval.executeAll none (nodes.take (i + 1)) ∅ with
  | ok _ s =>
    have hstmt := Eval.isStmt_of_executeAll hexec node hmem
    obtain ⟨kind, hkind, _⟩ := Emission.result_eq_error.1 hrefused
    rw [hstmt.stmtEmission] at hkind
    cases hkind
  | error error failed =>
    obtain ⟨before, after, other, s, hsplit, hbefore, hfails⟩ := Eval.exists_failing hexec
    have hlength := congrArg List.length hsplit
    rw [List.length_take, List.length_append, List.length_cons] at hlength
    have hnodes : nodes = before ++ other :: (after ++ nodes.drop (i + 1)) := by
      conv => lhs; rw [← List.take_append_drop (i + 1) nodes, hsplit]
      rw [List.append_assoc, List.cons_append]
    refine ⟨before.length, by omega, error, ?_⟩
    rw [hnodes]
    exact failsRunningAt_of_executeAll hbefore hfails

end Refusals

/-- **On nodes of any shape, the two backends reject the same.** The evaluator runs
statements to their end if and only if they can be translated and the machine runs to the
end of their code; the values printed and the variables are then the same. A translation
that fails refuses a statement, and the evaluator fails at that one or at one before it,
when it has printed the values of the print statements so far. -/
theorem rejections_agree (nodes : List Node) :
    (∀ values store, Eval.interpret none nodes ∅ = .ok values store ↔
      ∃ code m, generate nodes = .ok code ∧
        Machine.run (.plain none) (.load code) = .ok values m ∧ m.store = store) ∧
    (∀ d, generate nodes = .error d ↔ ∃ i, RefusedAt nodes i d) ∧
    ∀ i d, RefusedAt nodes i d → ∃ j, j ≤ i ∧ ∃ error, FailsRunningAt nodes j error := by
  refine ⟨fun values store => interpret_eq_ok_iff, fun d => generate_eq_error, ?_⟩
  intro i d h
  exact h.exists_failsRunningAt

/-- Three statements to print: a number, a quotient by zero, and what no operator gives. -/
def zeroDivisorFirst : List Node :=
  [.printStmt (.literal 7 ⟨0, 0⟩) ⟨0, 0⟩,
    .printStmt (.binary (.literal 1 ⟨0, 0⟩) (.known .div) (.literal 0 ⟨0, 0⟩) ⟨0, 0⟩) ⟨0, 0⟩,
    .printStmt (.binary (.literal 1 ⟨0, 0⟩) (.other "%") (.literal 2 ⟨0, 0⟩) ⟨0, 0⟩) ⟨0, 0⟩]

/-- The translation refuses the last statement; the evaluator does not come so far. -/
theorem rejections_agree_zeroDivisorFirst :
    RefusedAt zeroDivisorFirst 2 (Emission.diagnostic ("Binary(" ++ "%" ++ ")")) ∧
      ∃ j, j ≤ 2 ∧ ∃ error, FailsRunningAt zeroDivisorFirst j error := by
  have h : RefusedAt zeroDivisorFirst 2 (Emission.diagnostic ("Binary(" ++ "%" ++ ")")) :=
    ⟨⟨_, rfl⟩, _, rfl, rfl⟩
  exact ⟨h, (rejections_agree zeroDivisorFirst).right.right 2 _ h⟩

end LetPrint
