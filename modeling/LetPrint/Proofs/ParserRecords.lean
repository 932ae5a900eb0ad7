import LetPrint.Proofs.Recording

/-! The records of a parse, and what they tell.

The records of a parse are those of its statements, one after the other, and perhaps those of a
statement that fails (`ProgramRecords`, `BrokenRecords`). Read by themselves they tell what has
been done: the tokens that were taken are the tokens up to the place of the parser, each
declaration stands behind the taking of its token, and the declarations are the symbols, each the
first name of its kind behind a `let` (`Parser.ToldBy`). There is one statement on record for each
that is returned, and one more if the parse fails (`records_tell`). -/
namespace LetPrint

/-- Every declaration is recorded right behind the taking of the same token. -/
def Paired (events : List ParseEvent) : Prop :=
  ∀ before t after, events = before ++ ⟨.declare, t⟩ :: after →
    before.getLast? = some ⟨.consume, t⟩

/-- A token that gives a name right behind the word `let`, where no token before it gives the same
name. -/
def NamesFirst (tokens : List Token) (t : Token) : Prop :=
  ∃ before after, tokens = before ++ t :: after ∧ t.kind = .ident ∧ AfterLet before ∧
    t.raw ∉ letNames before

/-- The token that a statement declares the name of, if it is a let statement. -/
def Stmt.newName? : Stmt → Option Token
  | letStmt name _ _ => some name
  | printStmt .. => none

def Stmt.isLet : Stmt → Bool
  | letStmt .. => true
  | printStmt .. => false

/-- A statement starts with the keyword of its kind. -/
def Token.Starts (t : Token) : Stmt → Prop
  | .letStmt _ _ span => t.kind = .letWord ∧ span.start = t.span.start
  | .printStmt _ span => t.kind = .printWord ∧ span.start = t.span.start

theorem length_filterMap_newName? (program : Program) :
    (program.filterMap Stmt.newName?).length = program.countP Stmt.isLet := by
  have hsame : Stmt.isLet = fun s => s.newName?.isSome := by
    funext s
    cases s <;> rfl
  rw [List.length_filterMap_eq_countP, hsame]

/-! ### Declarations behind their tokens -/

section Pairs
variable {first second events : List ParseEvent}

theorem Paired.append (h : Paired first) (h' : Paired second) : Paired (first ++ second) := by
  intro before t after heq
  obtain ⟨between, hfirst, hrest⟩ | ⟨between, hbefore, hsecond⟩ := List.append_eq_append_iff.1 heq
  · rw [hfirst, List.getLast?_append, h' between t after hrest]
    rfl
  · cases between with
    | nil =>
      have hnone := h' [] t after (by simpa using hsecond.symm)
      cases hnone
    | cons event between =>
      obtain ⟨rfl, rfl⟩ := List.cons.inj hsecond
      exact h before t between hbefore

theorem paired_of_not_declare (h : ∀ event ∈ events, event.action ≠ .declare) : Paired events := by
  rintro before t after rfl
  exact absurd rfl (h ⟨.declare, t⟩ (by simp))

theorem paired_taken (t : Token) : Paired [⟨.consume, t⟩, ⟨.declare, t⟩] := by
  intro before name after heq
  match before with
  | [] => cases heq
  | [event] =>
    cases heq
    rfl
  | event :: event' :: before => simp at heq

end Pairs

/-! ### Names behind `let` -/

/-- Tokens that end behind no `let`, and the tokens among them that give the names behind one. -/
structure Settled (taken named : List Token) : Prop where
  names : letNames taken = named.map Token.raw
  closed : ¬ AfterLet taken

section Names
variable {taken named : List Token} {t first name : Token}

theorem afterLet_append_singleton : AfterLet (taken ++ [t]) ↔ t.kind = .letWord := by
  simp [AfterLet]

theorem NamesFirst.append (h : NamesFirst taken t) (more : List Token) :
    NamesFirst (taken ++ more) t := by
  obtain ⟨before, after, rfl, hfirst⟩ := h
  exact ⟨before, after ++ more, by simp, hfirst⟩

theorem settled_nil : Settled [] [] :=
  ⟨rfl, by simp [AfterLet]⟩

theorem Settled.next (h : Settled taken named) (hlet : t.kind ≠ .letWord) :
    Settled (taken ++ [t]) named := by
  constructor
  · rw [letNames_append_singleton, h.names]
    simp [h.closed]
  · rwa [afterLet_append_singleton]

/-- Tokens that are taken without a `let` give no name behind one. -/
theorem Settled.plain {events : List ParseEvent} (h : Settled taken named)
    (hplain : Parse.Plain events) : Settled (taken ++ tokensOf .consume events) named := by
  induction events generalizing taken with
  | nil => simpa using h
  | cons event events ih =>
    obtain ⟨⟨haction, hlet⟩, hothers⟩ := Parse.plain_cons.1 hplain
    have hmore := ih (h.next hlet) hothers
    simpa [haction] using hmore

/-- A name behind a `let`. -/
theorem Settled.naming (h : Settled taken named) (hfirst : first.kind = .letWord)
    (hname : name.kind = .ident) :
    Settled (taken ++ [first, name]) (named ++ [name]) ∧
      (name.raw ∉ named.map Token.raw → NamesFirst (taken ++ [first, name]) name) := by
  have hbehind : AfterLet (taken ++ [first]) := afterLet_append_singleton.2 hfirst
  have hbefore : letNames (taken ++ [first]) = named.map Token.raw := by
    rw [letNames_append_singleton, h.names]
    simp [h.closed]
  have hsplit : taken ++ [first, name] = taken ++ [first] ++ [name] := by simp
  refine ⟨⟨?_, ?_⟩, fun hnew => ?_⟩
  · rw [hsplit, letNames_append_singleton, hbefore]
    simp [hbehind, hname]
  · rw [hsplit, afterLet_append_singleton, hname]
    decide
  · exact ⟨taken ++ [first], [], hsplit, hname, hbehind, hbefore ▸ hnew⟩

end Names

/-! ### What the records of statements tell -/

namespace Parse

section Records
variable {t : Token} {s : Stmt} {read : List (Token × Stmt)} {events : List ParseEvent}
variable {taken named : List Token}

theorem paired_plain (hplain : Plain events) : Paired events := by
  refine paired_of_not_declare fun event hevent => ?_
  rw [(hplain event hevent).1]
  decide

/-- A let statement from its keyword on. -/
theorem paired_named (first name : Token) (hplain : Plain events) :
    Paired (⟨.consume, first⟩ :: ⟨.consume, name⟩ :: ⟨.declare, name⟩ :: events) := by
  have hfirst : Paired [⟨.consume, first⟩] := paired_of_not_declare (by simp)
  exact hfirst.append ((paired_taken name).append (paired_plain hplain))

theorem StmtRecords.starts (h : StmtRecords t s events) : t.Starts s := by
  cases h with
  | letStmt hfirst => exact ⟨hfirst, rfl⟩
  | printStmt hfirst => exact ⟨hfirst, rfl⟩

theorem StmtRecords.paired (h : StmtRecords t s events) : Paired events := by
  cases h with
  | letStmt _ _ hplain => exact paired_named _ _ hplain
  | printStmt hfirst hplain => exact paired_plain (by simp [hfirst, hplain])

theorem BrokenRecords.paired (h : BrokenRecords events) : Paired events := by
  cases h with
  | unnamed => exact paired_of_not_declare (by simp)
  | refused => exact paired_of_not_declare (by simp)
  | named _ _ hplain => exact paired_named _ _ hplain
  | plain hplain => exact paired_plain hplain

theorem StmtRecords.statements (h : StmtRecords t s events) : tokensOf .statement events = [] := by
  cases h with
  | letStmt _ _ hplain => simp [tokensOf_plain hplain]
  | printStmt _ hplain => simp [tokensOf_plain hplain]

theorem BrokenRecords.statements (h : BrokenRecords events) : tokensOf .statement events = [] := by
  cases h with
  | unnamed => simp
  | refused => simp
  | named _ _ hplain => simp [tokensOf_plain hplain]
  | plain hplain => simp [tokensOf_plain hplain]

theorem StmtRecords.declared (h : StmtRecords t s events) :
    tokensOf .declare events = s.newName?.toList := by
  cases h with
  | letStmt _ _ hplain => simp [tokensOf_plain hplain, Stmt.newName?]
  | printStmt _ hplain => simp [tokensOf_plain hplain, Stmt.newName?]

/-- Records that come behind others tell of each name that they declare that it is the first one
behind a `let`, as long as all names are distinct. -/
def TellFirst (taken named : List Token) (events : List ParseEvent) : Prop :=
  ((named ++ tokensOf .declare events).map Token.raw).Nodup →
    ∀ t ∈ tokensOf .declare events, NamesFirst (taken ++ tokensOf .consume events) t

/-- Records that come behind others and leave everything settled. -/
structure Tells (taken named : List Token) (events : List ParseEvent) : Prop where
  settled : Settled (taken ++ tokensOf .consume events) (named ++ tokensOf .declare events)
  first : TellFirst taken named events

theorem TellFirst.behind {first second : List ParseEvent} (h : Tells taken named first)
    (h' : TellFirst (taken ++ tokensOf .consume first) (named ++ tokensOf .declare first) second) :
    TellFirst taken named (first ++ second) := by
  intro hdistinct t ht
  simp only [tokensOf_append, ← List.append_assoc] at hdistinct ht ⊢
  rcases List.mem_append.1 ht with ht | ht
  · rw [List.map_append] at hdistinct
    exact (h.first (List.nodup_append.1 hdistinct).1 t ht).append _
  · exact h' hdistinct t ht

theorem Tells.append {first second : List ParseEvent} (h : Tells taken named first)
    (h' : Tells (taken ++ tokensOf .consume first) (named ++ tokensOf .declare first) second) :
    Tells taken named (first ++ second) := by
  refine ⟨?_, .behind h h'.first⟩
  simpa only [tokensOf_append, List.append_assoc] using h'.settled

theorem tells_plain (h : Settled taken named) (hplain : Plain events) :
    Tells taken named events := by
  have hnone : tokensOf .declare events = [] := tokensOf_plain hplain (by decide)
  refine ⟨?_, fun _ t ht => ?_⟩
  · rw [hnone, List.append_nil]
    exact h.plain hplain
  · rw [hnone] at ht
    exact absurd ht List.not_mem_nil

theorem tells_statement (h : Settled taken named) (t : Token) :
    Tells taken named [⟨.statement, t⟩] :=
  ⟨by simpa using h, fun _ => by simp⟩

/-- A let statement from its keyword on. -/
theorem tells_named (h : Settled taken named) {first name : Token} (hfirst : first.kind = .letWord)
    (hname : name.kind = .ident) (hplain : Plain events) :
    Tells taken named (⟨.consume, first⟩ :: ⟨.consume, name⟩ :: ⟨.declare, name⟩ :: events) := by
  obtain ⟨hsettled, hnew⟩ := h.naming hfirst hname
  have hbegin : Tells taken named [⟨.consume, first⟩, ⟨.consume, name⟩, ⟨.declare, name⟩] := by
    refine ⟨by simpa using hsettled, fun hdistinct t ht => ?_⟩
    obtain rfl : t = name := by simpa using ht
    refine hnew fun hmem => ?_
    simp only [tokensOf_cons, tokensOf_nil, reduceCtorEq, if_true, if_false, List.map_append,
      List.map_cons, List.map_nil] at hdistinct
    exact (List.nodup_append.1 hdistinct).2.2 _ hmem _ (List.mem_singleton_self _) rfl
  exact hbegin.append (tells_plain hbegin.settled hplain)

theorem StmtRecords.tells (h : StmtRecords t s events) (hsettled : Settled taken named) :
    Tells taken named events := by
  cases h with
  | letStmt hfirst hname hplain => exact tells_named hsettled hfirst hname hplain
  | printStmt hfirst hplain => exact tells_plain hsettled (by simp [hfirst, hplain])

/-- A statement that fails may end behind a `let`, and what it declares comes before that. -/
theorem BrokenRecords.tellFirst (h : BrokenRecords events) (hsettled : Settled taken named) :
    TellFirst taken named events := by
  cases h with
  | unnamed => exact fun _ => by simp
  | refused => exact fun _ => by simp
  | named hfirst hname hplain => exact (tells_named hsettled hfirst hname hplain).first
  | plain hplain => exact (tells_plain hsettled hplain).first

theorem ProgramRecords.tells (h : ProgramRecords read events) (hsettled : Settled taken named) :
    Tells taken named events := by
  induction h generalizing taken named with
  | nil => exact tells_plain hsettled plain_nil
  | @cons t s read events more hfirst _ ih =>
    have hstatement := tells_statement hsettled t
    have hbegin := hstatement.append (hfirst.tells hstatement.settled)
    exact hbegin.append (ih hbegin.settled)

theorem ProgramRecords.paired (h : ProgramRecords read events) : Paired events := by
  induction h with
  | nil => exact paired_plain plain_nil
  | @cons t s read events more hfirst _ ih =>
    have hstatement : Paired [⟨.statement, t⟩] := paired_of_not_declare (by simp)
    exact (hstatement.append hfirst.paired).append ih

theorem ProgramRecords.statements (h : ProgramRecords read events) :
    tokensOf .statement events = read.map Prod.fst := by
  induction h with
  | nil => rfl
  | cons hfirst _ ih => simp [hfirst.statements, ih]

theorem ProgramRecords.declared (h : ProgramRecords read events) :
    tokensOf .declare events = (read.map Prod.snd).filterMap Stmt.newName? := by
  induction h with
  | nil => rfl
  | @cons t s read events more hfirst _ ih =>
    cases hname : s.newName? <;> simp [hfirst.declared, ih, hname]

theorem ProgramRecords.starts (h : ProgramRecords read events) :
    ∀ pair ∈ read, pair.1.Starts pair.2 := by
  induction h with
  | nil => simp
  | cons hfirst _ ih => exact List.forall_mem_cons.2 ⟨hfirst.starts, ih⟩

end Records

end Parse

/-! ### Whole parses -/

/-- A parser that was given some tokens, told by its records. -/
structure Parser.ToldBy (p : Parser) (tokens : List Token) (events : List ParseEvent) : Prop where
  recorded : p.events.toList = events
  within : 0 ≤ p.index ∧ p.index ≤ tokens.length
  taken : tokensOf .consume events = tokens.take p.index.toNat
  paired : Paired events
  declared : p.symbols.entries = (tokensOf .declare events).map fun t => (t.raw, t)
  distinct : p.symbols.names.Nodup
  first : ∀ t ∈ tokensOf .declare events, NamesFirst (tokens.take p.index.toNat) t

open Parse

theorem toldBy_of_records {tokens : List Token} {p : Parser} {events : List ParseEvent}
    (h : (Parser.ofTokens tokens).Records events p) (hpaired : Paired events)
    (hfirst : TellFirst [] [] events) : p.ToldBy tokens events := by
  have hsplit : tokens = tokensOf .consume events ++ p.rest := h.onward.rest
  have hindex : p.index = (tokensOf .consume events).length := by
    rw [h.onward.index]
    exact Int.zero_add _
  have htaken : tokensOf .consume events = tokens.take p.index.toNat := by
    rw [hindex, Int.toNat_natCast]
    conv_rhs => rw [hsplit]
    simp
  have hlength : (tokensOf .consume events).length ≤ tokens.length := by
    conv_rhs => rw [hsplit]
    simp
  have hdeclared : p.symbols.entries = (tokensOf .declare events).map fun t => (t.raw, t) :=
    h.onward.symbols
  have hdistinct : p.symbols.names.Nodup := h.onward.distinct List.nodup_nil
  have hnames : p.symbols.names = (tokensOf .declare events).map Token.raw := by
    simp [Bindings.names, hdeclared]
  refine ⟨h.recorded, ⟨by omega, by omega⟩, htaken, hpaired, hdeclared, hdistinct, ?_⟩
  rw [← htaken]
  exact hfirst (by simpa [hnames] using hdistinct)

/-- **The records of a parse account for it**, whether it returns or fails. All tokens are taken
if it returns. -/
theorem records_tell (tokens : List Token) :
    match program (.ofTokens tokens) with
    | .ok result p => ∃ events, p.ToldBy tokens events ∧ p.index = tokens.length ∧
        tokensOf .declare events = result.filterMap Stmt.newName? ∧
        (tokensOf .declare events).length = result.countP Stmt.isLet ∧
        ∃ read, Reads (.ofTokens tokens) read p ∧ read.map Prod.snd = result ∧
          tokensOf .statement events = read.map Prod.fst ∧
          ∀ pair ∈ read, pair.1.Starts pair.2
    | .error fault p => ∃ events, p.ToldBy tokens events ∧
        ∃ read start t, Reads (.ofTokens tokens) read start ∧ start.peek = some t ∧
          stmt start = .error fault p ∧
          tokensOf .statement events = read.map Prod.fst ++ [t] ∧
          ∀ pair ∈ read, pair.1.Starts pair.2 := by
  cases h : program (.ofTokens tokens) with
  | ok result p =>
    have hstmts : stmts tokens.length (.ofTokens tokens) = .ok result p := h
    obtain ⟨read, hread, hresult⟩ := exists_reads hstmts
    obtain ⟨events, hrecords, hshape⟩ := hread.records
    have htold := toldBy_of_records hrecords hshape.paired (hshape.tells settled_nil).first
    have hdeclared : tokensOf .declare events = result.filterMap Stmt.newName? := by
      rw [hshape.declared, hresult]
    obtain ⟨used, _, hadvances, ⟨_, hrest⟩, _⟩ :=
      (stmts_follows tokens.length).ok tracks_ofTokens between_ofTokens hstmts
    have hused : tokens = used := by
      have hsplit : tokens = used ++ p.rest := hadvances.rest
      rwa [hrest, List.append_nil] at hsplit
    have hall : p.index = tokens.length := by
      rw [hadvances.index, hused]
      exact Int.zero_add _
    refine ⟨events, htold, hall, hdeclared, ?_, read, hread, hresult, hshape.statements,
      hshape.starts⟩
    rw [hdeclared, length_filterMap_newName?]
  | error fault p =>
    have hstmts : stmts tokens.length (.ofTokens tokens) = .error fault p := h
    obtain ⟨read, start, t, hread, hpeek, hstmt⟩ := exists_reads_of_error hstmts
    obtain ⟨events, hrecords, hshape⟩ := hread.records
    obtain ⟨rest, hrest⟩ := rest_of_peek hpeek
    obtain ⟨more, hmore, hbroken⟩ := records_of_stmt_error hrest hstmt
    have hall := hrecords.trans hmore
    have hstatement : Paired [⟨.statement, t⟩] := paired_of_not_declare (by simp)
    have htells := hshape.tells settled_nil
    have hbegun := htells.append (tells_statement htells.settled t)
    have hpaired := hshape.paired.append (hstatement.append hbroken.paired)
    have hfirst : TellFirst [] [] (events ++ (⟨.statement, t⟩ :: more)) := by
      have hbehind := TellFirst.behind hbegun (hbroken.tellFirst hbegun.settled)
      simpa using hbehind
    have htold := toldBy_of_records hall hpaired hfirst
    refine ⟨_, htold, read, start, t, hread, hpeek, hstmt, ?_, hshape.starts⟩
    simp [hshape.statements, hbroken.statements]

end LetPrint
