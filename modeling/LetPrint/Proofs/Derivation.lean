import LetPrint.Proofs.Language
import LetPrint.Proofs.Numerals
import LetPrint.Syntax.Tree
import Mathlib.Data.List.Forall2

/-! The program that some tokens are.

`ProgramOf tokens program` is the grammar once more, now with the tree that each rule
builds, its numbers, names and spans. There is one tree at most (`ProgramOf.unique`), and
it can be read back: its spelling is that of the tokens, except for zeros in front of
numbers (`ProgramOf.spelling`). -/
namespace LetPrint

inductive OperandOf : List Token → Expr → Prop
  | literal {t : Token} : t.kind = .number →
    OperandOf [t] (.literal (Nat.ofDigitChars 10 t.raw.toList 0 : Nat) t.span)
  | var {t : Token} : t.kind = .ident → OperandOf [t] (.var t t.span)

inductive ExprOf : List Token → Expr → Prop
  | single {ts : List Token} {e : Expr} : OperandOf ts e → ExprOf ts e
  | binary {ts us : List Token} {t : Token} {left right : Expr} {op : BinOp} :
    OperandOf ts left → t.kind = .operator → t.raw = op.symbol → OperandOf us right →
      ExprOf (ts ++ t :: us) (.binary left op right ⟨left.span.start, right.span.stop⟩)

inductive StmtOf : List Token → Stmt → Prop
  | letStmt {first name eq last : Token} {ts : List Token} {value : Expr} :
    first.kind = .letWord → name.kind = .ident → eq.kind = .equals → ExprOf ts value →
      last.kind = .semicolon →
      StmtOf (first :: name :: eq :: (ts ++ [last]))
        (.letStmt name value ⟨first.span.start, last.span.stop⟩)
  | printStmt {first left right last : Token} {ts : List Token} {value : Expr} :
    first.kind = .printWord → left.kind = .openParen → ExprOf ts value →
      right.kind = .closeParen → last.kind = .semicolon →
      StmtOf (first :: left :: (ts ++ [right, last]))
        (.printStmt value ⟨first.span.start, last.span.stop⟩)

inductive ProgramOf : List Token → Program → Prop
  | nil : ProgramOf [] []
  | cons {ts us : List Token} {first : Stmt} {others : Program} :
    StmtOf ts first → ProgramOf us others → ProgramOf (ts ++ us) (first :: others)

/-! ### One tree at most -/

/-- The tree of an operand of one token. -/
def Token.operand (t : Token) : Expr :=
  if t.kind = .number then .literal (Nat.ofDigitChars 10 t.raw.toList 0 : Nat) t.span
  else .var t t.span

theorem OperandOf.exists_token {ts : List Token} {e : Expr} (h : OperandOf ts e) :
    ∃ t, ts = [t] ∧ t.kind ≠ .operator ∧ e = t.operand := by
  cases h with
  | @literal t hkind => exact ⟨t, rfl, by simp [hkind], by simp [Token.operand, hkind]⟩
  | @var t hkind => exact ⟨t, rfl, by simp [hkind], by simp [Token.operand, hkind]⟩

theorem symbol_injective {op op' : BinOp} (h : op.symbol = op'.symbol) : op = op' := by
  cases op <;> cases op' <;> first | rfl | exact absurd h (by decide)

/-- An expression ends where no operator follows, so what comes after it says how long
it is. -/
theorem ExprOf.unique {ts ts' rest rest' : List Token} {t t' : Token} {e e' : Expr}
    (h : ExprOf ts e) (h' : ExprOf ts' e') (heq : ts ++ t :: rest = ts' ++ t' :: rest')
    (ht : t.kind ≠ .operator) (ht' : t'.kind ≠ .operator) : ts = ts' ∧ e = e' := by
  cases h with
  | single hleft =>
    obtain ⟨a, rfl, _, rfl⟩ := hleft.exists_token
    cases h' with
    | single hleft' =>
      obtain ⟨a', rfl, _, rfl⟩ := hleft'.exists_token
      obtain ⟨rfl, _⟩ := List.cons.inj heq
      exact ⟨rfl, rfl⟩
    | binary hleft' hop' _ _ =>
      obtain ⟨a', rfl, _, rfl⟩ := hleft'.exists_token
      obtain ⟨_, htail⟩ := List.cons.inj heq
      obtain ⟨rfl, _⟩ := List.cons.inj htail
      exact absurd hop' ht
  | binary hleft hop hsymbol hright =>
    obtain ⟨a, rfl, _, rfl⟩ := hleft.exists_token
    obtain ⟨b, rfl, _, rfl⟩ := hright.exists_token
    cases h' with
    | single hleft' =>
      obtain ⟨a', rfl, _, rfl⟩ := hleft'.exists_token
      obtain ⟨_, htail⟩ := List.cons.inj heq
      obtain ⟨rfl, _⟩ := List.cons.inj htail
      exact absurd hop ht'
    | binary hleft' hop' hsymbol' hright' =>
      obtain ⟨a', rfl, _, rfl⟩ := hleft'.exists_token
      obtain ⟨b', rfl, _, rfl⟩ := hright'.exists_token
      simp only [List.cons_append, List.nil_append, List.cons.injEq] at heq
      obtain ⟨rfl, rfl, rfl, _⟩ := heq
      have hsame := symbol_injective (hsymbol.symm.trans hsymbol')
      subst hsame
      exact ⟨rfl, rfl⟩

theorem StmtOf.unique {ts ts' rest rest' : List Token} {s s' : Stmt} (h : StmtOf ts s)
    (h' : StmtOf ts' s') (heq : ts ++ rest = ts' ++ rest') : ts = ts' ∧ s = s' ∧ rest = rest' := by
  cases h with
  | letStmt hfirst _ _ hvalue hlast =>
    cases h' with
    | letStmt _ _ _ hvalue' hlast' =>
      simp only [List.cons_append, List.append_assoc, List.nil_append, List.cons.injEq] at heq
      obtain ⟨rfl, rfl, rfl, hvalues⟩ := heq
      obtain ⟨rfl, rfl⟩ := hvalue.unique hvalue' hvalues (by simp [hlast]) (by simp [hlast'])
      obtain ⟨rfl, rfl⟩ := List.cons.inj (List.append_cancel_left hvalues)
      exact ⟨rfl, rfl, rfl⟩
    | printStmt hfirst' =>
      obtain ⟨rfl, _⟩ := List.cons.inj heq
      rw [hfirst] at hfirst'
      cases hfirst'
  | printStmt hfirst _ hvalue hright _ =>
    cases h' with
    | letStmt hfirst' =>
      obtain ⟨rfl, _⟩ := List.cons.inj heq
      rw [hfirst] at hfirst'
      cases hfirst'
    | printStmt _ _ hvalue' hright' _ =>
      simp only [List.cons_append, List.append_assoc, List.nil_append, List.cons.injEq] at heq
      obtain ⟨rfl, rfl, hvalues⟩ := heq
      obtain ⟨rfl, rfl⟩ := hvalue.unique hvalue' hvalues (by simp [hright]) (by simp [hright'])
      obtain ⟨rfl, hlast⟩ := List.cons.inj (List.append_cancel_left hvalues)
      obtain ⟨rfl, rfl⟩ := List.cons.inj hlast
      exact ⟨rfl, rfl, rfl⟩

theorem StmtOf.ne_nil {ts : List Token} {s : Stmt} (h : StmtOf ts s) : ts ≠ [] := by
  cases h <;> exact List.cons_ne_nil _ _

/-- **Tokens have one tree at most.** -/
theorem ProgramOf.unique {tokens : List Token} {p q : Program} (h : ProgramOf tokens p)
    (h' : ProgramOf tokens q) : p = q := by
  induction h generalizing q with
  | nil =>
    generalize hnil : ([] : List Token) = tokens at h'
    cases h' with
    | nil => rfl
    | cons hfirst _ => exact absurd (List.append_eq_nil_iff.1 hnil.symm).1 hfirst.ne_nil
  | @cons ts us first others hfirst _ ih =>
    generalize hall : ts ++ us = tokens at h'
    cases h' with
    | nil => exact absurd (List.append_eq_nil_iff.1 hall).1 hfirst.ne_nil
    | cons hfirst' hothers' =>
      obtain ⟨_, rfl, rfl⟩ := hfirst.unique hfirst' hall
      rw [ih hothers']

/-! ### Reading a tree back -/

def Expr.spelling : Expr → List (TokenKind × String)
  | literal value _ => [(.number, Text.Decimal.write value)]
  | var name _ => [(.ident, name.raw)]
  | binary left op right _ => left.spelling ++ (.operator, op.symbol) :: right.spelling

def Stmt.spelling : Stmt → List (TokenKind × String)
  | letStmt name value _ =>
    (.letWord, "let") :: (.ident, name.raw) :: (.equals, "=") ::
      (value.spelling ++ [(.semicolon, ";")])
  | printStmt value _ =>
    (.printWord, "print") :: (.openParen, "(") ::
      (value.spelling ++ [(.closeParen, ")"), (.semicolon, ";")])

/-- The kinds and texts of a program, with keywords and punctuation put back. -/
def Program.spelling (program : Program) : List (TokenKind × String) :=
  program.flatMap Stmt.spelling

/-- A token that is spelled in a given way; a number may have more zeros in front. -/
def Token.ReadsAs (t : Token) (spelling : TokenKind × String) : Prop :=
  t.kind = spelling.1 ∧
    (t.raw = spelling.2 ∨ t.kind = .number ∧
      ∃ zeros, t.raw.toList = List.replicate zeros '0' ++ spelling.2.toList)

/-- A token that fits a kind with only one text. -/
theorem Token.Fits.readsAs {t : Token} {kind : TokenKind} {text : String} (h : t.Fits)
    (hkind : t.kind = kind) (hident : kind ≠ .ident)
    (honly : ∀ cs, kind.Spells cs → cs = text.toList) : t.ReadsAs (kind, text) := by
  rcases h with h | h
  · exact absurd (hkind.symm.trans h) hident
  · rw [hkind] at h
    exact ⟨hkind, .inl (String.toList_inj.1 (honly _ h))⟩

theorem OperandOf.spelling {ts : List Token} {e : Expr} (h : OperandOf ts e) (hfits : Fitting ts) :
    List.Forall₂ Token.ReadsAs ts e.spelling := by
  cases h with
  | @literal t hkind =>
    refine .cons ⟨hkind, .inr ⟨hkind, ?_⟩⟩ .nil
    rcases hfits t (List.mem_singleton_self t) with hident | hspells
    · rw [hkind] at hident
      cases hident
    · rw [hkind] at hspells
      obtain ⟨zeros, hzeros⟩ := Text.zeros_append_toDigits hspells
      refine ⟨zeros, ?_⟩
      rw [Text.Decimal.write, String.toList_ofList]
      exact hzeros
  | var hkind => exact .cons ⟨hkind, .inl rfl⟩ .nil

theorem ExprOf.spelling {ts : List Token} {e : Expr} (h : ExprOf ts e) (hfits : Fitting ts) :
    List.Forall₂ Token.ReadsAs ts e.spelling := by
  cases h with
  | single h => exact h.spelling hfits
  | binary hleft hop hsymbol hright =>
    rw [fitting_append, fitting_cons] at hfits
    exact List.rel_append (hleft.spelling hfits.1)
      (.cons ⟨hop, .inl hsymbol⟩ (hright.spelling hfits.2.2))

theorem StmtOf.spelling {ts : List Token} {s : Stmt} (h : StmtOf ts s) (hfits : Fitting ts) :
    List.Forall₂ Token.ReadsAs ts s.spelling := by
  cases h with
  | letStmt hfirst hname heq hvalue hlast =>
    simp only [fitting_cons, fitting_append] at hfits
    obtain ⟨ffirst, _, feq, fvalue, flast, _⟩ := hfits
    refine .cons (ffirst.readsAs hfirst (by decide) fun _ h => h) (.cons ⟨hname, .inl rfl⟩
      (.cons (feq.readsAs heq (by decide) fun _ h => h) (List.rel_append (hvalue.spelling fvalue) ?_)))
    exact .cons (flast.readsAs hlast (by decide) fun _ h => h) .nil
  | printStmt hfirst hleft hvalue hright hlast =>
    simp only [fitting_cons, fitting_append] at hfits
    obtain ⟨ffirst, fleft, fvalue, fright, flast, _⟩ := hfits
    refine .cons (ffirst.readsAs hfirst (by decide) fun _ h => h)
      (.cons (fleft.readsAs hleft (by decide) fun _ h => h)
        (List.rel_append (hvalue.spelling fvalue) ?_))
    exact .cons (fright.readsAs hright (by decide) fun _ h => h)
      (.cons (flast.readsAs hlast (by decide) fun _ h => h) .nil)

/-- **The spelling of a program is that of its tokens**, up to zeros in front of numbers. -/
theorem ProgramOf.spelling {tokens : List Token} {program : Program} (h : ProgramOf tokens program)
    (hfits : Fitting tokens) : List.Forall₂ Token.ReadsAs tokens program.spelling := by
  induction h with
  | nil => exact .nil
  | cons hfirst _ ih =>
    rw [fitting_append] at hfits
    exact List.rel_append (hfirst.spelling hfits.1) (ih hfits.2)

end LetPrint
