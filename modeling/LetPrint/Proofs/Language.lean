import LetPrint.Proofs.Spelling

/-! Which tokens make a program.

The kinds of the tokens must follow the grammar (`IsProgram`), and the names must be
well scoped (`WellScoped`): each is declared once, by the name after a `let`, and is used
only after that. Nothing here refers to a parser. -/
namespace LetPrint

/-- A token whose text fits its kind. A name may be any text, since nothing looks into a
name; the lexer makes no other tokens. -/
def Token.Fits (t : Token) : Prop :=
  t.kind = .ident ∨ t.kind.Spells t.raw.toList

/-- Tokens whose texts all fit their kinds. -/
def Fitting (tokens : List Token) : Prop :=
  ∀ t ∈ tokens, t.Fits

@[simp] theorem fitting_nil : Fitting [] := by
  intro t ht
  cases ht

@[simp] theorem fitting_cons {t : Token} {tokens : List Token} :
    Fitting (t :: tokens) ↔ t.Fits ∧ Fitting tokens :=
  List.forall_mem_cons

@[simp] theorem fitting_append {front back : List Token} :
    Fitting (front ++ back) ↔ Fitting front ∧ Fitting back :=
  List.forall_mem_append

/-! ### The grammar -/

inductive IsOperand : List TokenKind → Prop
  | number : IsOperand [.number]
  | name : IsOperand [.ident]

inductive IsExpr : List TokenKind → Prop
  | single {operand : List TokenKind} : IsOperand operand → IsExpr operand
  | binary {left right : List TokenKind} : IsOperand left → IsOperand right →
    IsExpr (left ++ .operator :: right)

inductive IsStmt : List TokenKind → Prop
  | letStmt {value : List TokenKind} : IsExpr value →
    IsStmt (.letWord :: .ident :: .equals :: (value ++ [.semicolon]))
  | printStmt {value : List TokenKind} : IsExpr value →
    IsStmt (.printWord :: .openParen :: (value ++ [.closeParen, .semicolon]))

inductive IsProgram : List TokenKind → Prop
  | nil : IsProgram []
  | cons {first others : List TokenKind} : IsStmt first → IsProgram others →
    IsProgram (first ++ others)

/-! ### Scopes -/

/-- Whether the last token is the word `let`, so that a name here is one to declare. -/
def AfterLet (before : List Token) : Prop :=
  before.getLast?.map Token.kind = some .letWord

instance (before : List Token) : Decidable (AfterLet before) :=
  inferInstanceAs (Decidable (_ = _))

/-- The declared names: those right after the word `let`, in order. -/
def letNames : List Token → List String
  | first :: second :: rest =>
    if first.kind = .letWord ∧ second.kind = .ident then second.raw :: letNames (second :: rest)
    else letNames (second :: rest)
  | _ => []

/-- Each name is declared once, and is used only after it is declared. It may be used in
the statement that declares it. -/
structure WellScoped (tokens : List Token) : Prop where
  distinct : (letNames tokens).Nodup
  declared : ∀ before t after, tokens = before ++ t :: after → t.kind = .ident →
    ¬ AfterLet before → t.raw ∈ letNames before

/-- What the scopes ask of one more token. -/
def InScope (before : List Token) (t : Token) : Prop :=
  t.kind = .ident →
    if AfterLet before then t.raw ∉ letNames before else t.raw ∈ letNames before

/-- One more token declares a name at most. -/
theorem letNames_append_singleton (before : List Token) (t : Token) :
    letNames (before ++ [t]) =
      letNames before ++ if AfterLet before ∧ t.kind = .ident then [t.raw] else [] := by
  induction before using letNames.induct with
  | case1 first second rest hlet ih =>
    have hafter : AfterLet (first :: second :: rest) ↔ AfterLet (second :: rest) := by
      rw [AfterLet, AfterLet, List.getLast?_cons_cons]
    have hcons : letNames (first :: second :: rest ++ [t]) =
        second.raw :: letNames (second :: rest ++ [t]) := by
      simp only [List.cons_append, letNames, hlet, and_self, if_true]
    rw [hcons, ih, letNames, if_pos hlet, List.cons_append]
    simp only [hafter]
  | case2 first second rest hlet ih =>
    have hafter : AfterLet (first :: second :: rest) ↔ AfterLet (second :: rest) := by
      rw [AfterLet, AfterLet, List.getLast?_cons_cons]
    have hcons : letNames (first :: second :: rest ++ [t]) = letNames (second :: rest ++ [t]) := by
      simp only [List.cons_append, letNames, hlet, if_false]
    rw [hcons, ih, letNames, if_neg hlet]
    simp only [hafter]
  | case3 before hshort =>
    match before with
    | [] => simp [letNames, AfterLet]
    | [first] => simp [letNames, AfterLet]
    | first :: second :: rest => exact absurd rfl (hshort first second rest)

theorem wellScoped_nil : WellScoped [] := by
  refine ⟨List.nodup_nil, fun before t after h => ?_⟩
  simp at h

/-- **Scopes are checked token by token.** -/
theorem wellScoped_append_singleton {tokens : List Token} {t : Token} :
    WellScoped (tokens ++ [t]) ↔ WellScoped tokens ∧ InScope tokens t := by
  constructor
  · intro h
    have hdistinct := h.distinct
    rw [letNames_append_singleton, List.nodup_append] at hdistinct
    obtain ⟨hold, _, hnew⟩ := hdistinct
    refine ⟨⟨hold, fun before s after heq => h.declared before s (after ++ [t]) ?_⟩, fun hident => ?_⟩
    · rw [heq, List.append_assoc, List.cons_append]
    · by_cases hafter : AfterLet tokens
      · rw [if_pos hafter]
        intro hmem
        rw [if_pos ⟨hafter, hident⟩] at hnew
        exact hnew _ hmem _ (List.mem_singleton_self _) rfl
      · rw [if_neg hafter]
        exact h.declared tokens t [] rfl hident hafter
  · intro hboth
    obtain ⟨h, hscope⟩ := hboth
    constructor
    case distinct =>
      rw [letNames_append_singleton]
      by_cases hnew : AfterLet tokens ∧ t.kind = .ident
      · have hfresh := hscope hnew.2
        rw [if_pos hnew.1] at hfresh
        rw [if_pos hnew, List.nodup_append]
        refine ⟨h.distinct, by simp, fun name hname other hother => ?_⟩
        rw [List.mem_singleton.1 hother]
        intro heq
        rw [heq] at hname
        exact hfresh hname
      · rw [if_neg hnew, List.append_nil]
        exact h.distinct
    case declared =>
      intro before s after heq hident hafter
      rcases List.eq_nil_or_concat after with rfl | ⟨after, last, rfl⟩
      · obtain ⟨rfl, hlast⟩ := List.append_inj' heq rfl
        cases hlast
        have := hscope hident
        rwa [if_neg hafter] at this
      · rw [List.concat_eq_append, ← List.cons_append, ← List.append_assoc] at heq
        obtain ⟨htokens, _⟩ := List.append_inj' heq rfl
        exact h.declared before s after htokens hident hafter

end LetPrint
