import LetPrint.Parser.Grammar
import LetPrint.Proofs.Changes

/-! Parsing a copy of some tokens.

The copy of a token has its kind. It may stand at another place, and where the token is a
name it may be another name. As long as no two names become one, the parser does with the
copies what it does with the tokens, step by step, and comes to a copy of what it comes to
(`copies_program`): it knows no name from another but for being the same or not, and it
never looks at places. -/
namespace LetPrint

/-- How copies differ: what becomes of a name, and what becomes of a place. -/
structure Copying where
  name : String → String
  place : Int → Int

/-- Names change, places do not. -/
def Copying.ofNames (rename : String → String) : Copying :=
  ⟨rename, id⟩

section Definitions
variable (c : Copying)

def Span.copy (span : Span) : Span :=
  ⟨c.place span.start, c.place span.stop⟩

def Token.copy (t : Token) : Token :=
  ⟨t.kind, if t.kind = .ident then c.name t.raw else t.raw, t.span.copy c⟩

/-- The copy of a token that is taken for a name, whatever its kind is. -/
def Token.copyName (t : Token) : Token :=
  ⟨t.kind, c.name t.raw, t.span.copy c⟩

def Expr.copy : Expr → Expr
  | literal value span => .literal value (span.copy c)
  | var name span => .var (name.copyName c) (span.copy c)
  | binary left op right span => .binary left.copy op right.copy (span.copy c)

def Stmt.copy : Stmt → Stmt
  | letStmt name value span => .letStmt (name.copyName c) (value.copy c) (span.copy c)
  | printStmt value span => .printStmt (value.copy c) (span.copy c)

def Program.copy (program : Program) : Program :=
  program.map (Stmt.copy c)

def ParseEvent.copy (event : ParseEvent) : ParseEvent :=
  {event with token := event.token.copy c}

def ParseFault.copy : ParseFault → ParseFault
  | unexpected expected found => .unexpected expected (found.map (Token.copy c))
  | redeclared name first => .redeclared (name.copy c) (first.copy c)
  | undeclared name => .undeclared (name.copy c)
  | declaredTwice name => .declaredTwice (c.name name)
  | fault => fault

/-- The parser with copies for all its tokens. -/
def Parser.copy (p : Parser) : Parser where
  tokens := p.tokens.map (Token.copy c)
  index := p.index
  rest := p.rest.map (Token.copy c)
  symbols := p.symbols.mapEntries c.name (Token.copy c)
  events := p.events.map (ParseEvent.copy c)

end Definitions

/-- A token that is one of some names, if it is a name. -/
def Token.NamedIn (names : Set String) (t : Token) : Prop :=
  t.kind = .ident → t.raw ∈ names

/-- A parser that knows only some names and meets no others. -/
structure Parser.NamedIn (names : Set String) (p : Parser) : Prop where
  rest : ∀ t ∈ p.rest, t.NamedIn names
  symbols : ∀ n ∈ p.symbols.names, n ∈ names

/-- Copying as a change of parsers and their faults. -/
def Copying.parsing (c : Copying) : Change ParseFault Parser :=
  ⟨ParseFault.copy c, Parser.copy c⟩

variable {c : Copying} {names : Set String}

theorem Token.copy_of_ident {t : Token} (h : t.kind = .ident) : t.copy c = t.copyName c := by
  rw [copy, copyName, if_pos h]

theorem Token.raw_copy {t : Token} (h : t.kind ≠ .ident) : (t.copy c).raw = t.raw := by
  rw [copy, if_neg h]

theorem Token.copyName_raw (t : Token) : (t.copyName c).raw = c.name t.raw :=
  rfl

theorem Expr.span_copy (e : Expr) : (e.copy c).span = e.span.copy c := by
  cases e <;> rfl

namespace Parser
variable (p : Parser)

theorem ofTokens_copy (tokens : List Token) :
    (ofTokens tokens).copy c = ofTokens (tokens.map (Token.copy c)) := by
  rw [copy, ofTokens, Array.map_empty]
  rfl

theorem rest_copy : (p.copy c).rest = p.rest.map (Token.copy c) :=
  rfl

theorem peek_copy : (p.copy c).peek = p.peek.map (Token.copy c) :=
  List.head?_map

theorem atEnd_copy : (p.copy c).atEnd = p.atEnd :=
  List.isEmpty_map

theorem nextIs_copy (kind : TokenKind) : (p.copy c).nextIs kind = p.nextIs kind := by
  rw [nextIs, nextIs, peek_copy]
  cases p.peek <;> rfl

theorem noting_copy (action : ParseAction) (token : Token) :
    (p.copy c).noting action (token.copy c) = (p.noting action token).copy c := by
  simp only [noting, copy, Array.map_push]
  rfl

theorem taking_copy (rest : List Token) :
    (p.copy c).taking (rest.map (Token.copy c)) = (p.taking rest).copy c :=
  rfl

end Parser

/-! ### The grammar -/

namespace Parse

/-- An operation of the parser does with copies what another one does with the tokens, where
only some names are met. -/
abbrev Copies {α β : Type} (c : Copying) (names : Set String) (g : α → β) (R : α → Prop)
    (f' : Parse β) (f : Parse α) : Prop :=
  c.parsing.Carries (Parser.NamedIn names) g R f' f

theorem copies_get : Copies c names (Parser.copy c) (Parser.NamedIn names) get get :=
  Change.carries_get

theorem copies_note (action : ParseAction) (token : Token) :
    Copies c names id (fun _ => True) (note action (token.copy c)) (note action token) := by
  refine Change.carries_modify (fun p _ => p.noting_copy action token) fun p hp => ?_
  exact ⟨hp.rest, hp.symbols⟩

/-- A token that is taken has one of the kinds, and is no other name than it may be. -/
theorem copies_consume (kinds : List TokenKind) :
    Copies c names (Token.copy c) (fun t => t.kind ∈ kinds ∧ t.NamedIn names) (consume kinds)
      (consume kinds) := by
  constructor
  case eq =>
    intro p _
    show consume kinds (p.copy c) = _
    have hcopy := p.rest_copy (c := c)
    cases hrest : p.rest with
    | nil =>
      rw [hrest, List.map_nil] at hcopy
      simp only [consume, hrest, hcopy]
      rfl
    | cons token rest =>
      rw [hrest, List.map_cons] at hcopy
      have hkind : (token.copy c).kind = token.kind := rfl
      simp only [consume, hrest, hcopy, hkind, p.noting_copy, Parser.taking_copy]
      split <;> rfl
  case ok =>
    intro p t p' hp hrun
    rw [consume] at hrun
    cases hrest : p.rest with
    | nil =>
      rw [hrest] at hrun
      cases hrun
    | cons token rest =>
      rw [hrest] at hrun
      dsimp only at hrun
      split at hrun
      · next hkind =>
        cases hrun
        have hnamed := List.forall_mem_cons.1 (hrest ▸ hp.rest)
        exact ⟨⟨hnamed.right, hp.symbols⟩, hkind, hnamed.left⟩
      · cases hrun

section Names
variable (hinj : Set.InjOn c.name names)
include hinj

theorem contains_copy {p : Parser} {name : String} (hp : p.NamedIn names) (hname : name ∈ names) :
    (p.copy c).symbols.contains (c.name name) = p.symbols.contains name :=
  Bindings.contains_mapEntries hinj hp.symbols hname _

theorem copies_declare {token : Token} (hkind : token.kind = .ident) (hname : token.raw ∈ names) :
    Copies c names id (fun _ => True) (declare (token.copy c)) (declare token) := by
  have hraw : (token.copy c).raw = c.name token.raw := by
    rw [Token.copy_of_ident hkind, Token.copyName_raw]
  constructor
  case eq =>
    intro p hp
    have hdeclaring : (p.copy c).declaring (token.copy c) = (p.declaring token).copy c := by
      have hinsert := Bindings.insert_mapEntries hinj hp.symbols hname (Token.copy c) token
      simp only [Parser.declaring, Parser.copy, hraw, ← hinsert]
    show declare (token.copy c) (p.copy c) = _
    rw [declare, declare, hraw, contains_copy hinj hp hname, hdeclaring]
    split
    · rfl
    · rfl
  case ok =>
    intro p u p' hp hrun
    rw [declare] at hrun
    split at hrun
    · cases hrun
    · cases hrun
      refine ⟨⟨hp.rest, fun n hn => ?_⟩, trivial⟩
      rcases Bindings.mem_names_insert hn with rfl | hn
      · exact hname
      · exact hp.symbols n hn

theorem copies_operand : Copies c names (Expr.copy c) (fun _ => True) operand operand := by
  refine (copies_consume _).bind fun token htoken => ?_
  obtain ⟨hkinds, hnamed⟩ := htoken
  have hkind : (token.copy c).kind = token.kind := rfl
  rw [hkind]
  by_cases hnumber : token.kind = .number
  · rw [if_pos hnumber, if_pos hnumber, Token.raw_copy (by rw [hnumber]; decide)]
    cases Text.Numeral.read token.raw with
    | none => exact Change.carries_throw rfl
    | some value => exact Change.carries_pure rfl trivial
  · -- What is no number is a name, so it is looked up under its other name.
    have hident : token.kind = .ident :=
      List.mem_singleton.1 (List.mem_of_ne_of_mem hnumber hkinds)
    rw [if_neg hnumber, if_neg hnumber, Token.copy_of_ident hident]
    refine copies_get.bind fun p hp => ?_
    rw [Token.copyName_raw, contains_copy hinj hp (hnamed hident)]
    cases p.symbols.contains token.raw with
    | false => exact Change.carries_throw (congrArg _ (Token.copy_of_ident hident).symm)
    | true => exact Change.carries_pure rfl trivial

theorem copies_operation (left : Expr) :
    Copies c names (Expr.copy c) (fun _ => True) (operation (left.copy c)) (operation left) := by
  refine (copies_consume _).bind fun op hop => (copies_operand hinj).bind fun right _ => ?_
  have hkind : op.kind = .operator := List.mem_singleton.1 hop.left
  rw [Token.raw_copy (by rw [hkind]; decide)]
  cases BinOp.ofSymbol? op.raw with
  | none => exact Change.carries_throw rfl
  | some op =>
    refine Change.carries_pure ?_ trivial
    rw [left.span_copy, right.span_copy]
    rfl

theorem copies_expr : Copies c names (Expr.copy c) (fun _ => True) expr expr := by
  refine (copies_operand hinj).bind fun left _ => copies_get.bind fun p _ => ?_
  rw [p.nextIs_copy]
  cases p.nextIs .operator with
  | false => exact Change.carries_pure rfl trivial
  | true => exact copies_operation hinj left

/-- A new name is a new name in the copy as well, and a known one is known there. -/
theorem copies_newName :
    Copies c names (Token.copyName c) (fun _ => True) newName newName := by
  refine (copies_consume _).bind fun name hname => copies_get.bind fun p hp => ?_
  obtain ⟨hkinds, hnamed⟩ := hname
  have hident : name.kind = .ident := List.mem_singleton.1 hkinds
  have hfind : (p.copy c).symbols.find? (name.copy c).raw =
      (p.symbols.find? name.raw).map (Token.copy c) := by
    rw [Token.copy_of_ident hident, Token.copyName_raw]
    exact Bindings.find?_mapEntries hinj hp.symbols (hnamed hident) _
  rw [hfind]
  cases p.symbols.find? name.raw with
  | some first => exact Change.carries_throw rfl
  | none =>
    refine (copies_declare hinj hident (hnamed hident)).bind fun _ _ =>
      (copies_note .declare name).bind fun _ _ => ?_
    exact Change.carries_pure (Token.copy_of_ident hident) trivial

theorem copies_letStmt : Copies c names (Stmt.copy c) (fun _ => True) letStmt letStmt :=
  (copies_consume _).bind fun _ _ => (copies_newName hinj).bind fun _ _ =>
    (copies_consume _).bind fun _ _ => (copies_expr hinj).bind fun _ _ =>
      (copies_consume _).bind fun _ _ => Change.carries_pure rfl trivial

theorem copies_printStmt : Copies c names (Stmt.copy c) (fun _ => True) printStmt printStmt :=
  (copies_consume _).bind fun _ _ => (copies_consume _).bind fun _ _ =>
    (copies_expr hinj).bind fun _ _ => (copies_consume _).bind fun _ _ =>
      (copies_consume _).bind fun _ _ => Change.carries_pure rfl trivial

theorem copies_stmt : Copies c names (Stmt.copy c) (fun _ => True) stmt stmt := by
  refine copies_get.bind fun p _ => ?_
  rw [p.peek_copy]
  cases p.peek with
  | none => exact Change.carries_throw rfl
  | some token =>
    refine (copies_note .statement token).bind fun _ _ => ?_
    have hkind : (token.copy c).kind = token.kind := rfl
    rw [hkind]
    cases token.kind with
    | letWord => exact copies_letStmt hinj
    | printWord => exact copies_printStmt hinj
    | _ => exact Change.carries_throw rfl

theorem copies_stmts (limit : Nat) :
    Copies c names (Program.copy c) (fun _ => True) (stmts limit) (stmts limit) := by
  induction limit with
  | zero => exact Change.carries_pure rfl trivial
  | succ limit ih =>
    refine copies_get.bind fun p _ => ?_
    rw [p.atEnd_copy]
    cases p.atEnd with
    | true => exact Change.carries_pure rfl trivial
    | false =>
      exact (copies_stmt hinj).bind fun _ _ => ih.bind fun _ _ => Change.carries_pure rfl trivial

/-- **The parser does with copies what it does with the tokens.** -/
theorem copies_program :
    Copies c names (Program.copy c) (fun _ => True) program program := by
  refine copies_get.bind fun p _ => ?_
  rw [p.rest_copy, List.length_map]
  exact copies_stmts hinj p.rest.length

end Names

end Parse

/-- **A copy of some tokens is parsed as a copy of what they are parsed as**, if different
names among them stay different. -/
theorem Parse.program_copy {tokens : List Token} (hinj : Set.InjOn c.name names)
    (hnames : ∀ t ∈ tokens, t.NamedIn names) :
    program (.ofTokens (tokens.map (Token.copy c))) =
      c.parsing.result (Program.copy c) (program (.ofTokens tokens)) := by
  have hp : (Parser.ofTokens tokens).NamedIn names :=
    ⟨hnames, fun n hn => absurd hn List.not_mem_nil⟩
  rw [← Parser.ofTokens_copy]
  exact (copies_program hinj).eq hp

end LetPrint
