import LetPrint.Proofs.Backends
import LetPrint.Proofs.ListingCodec
import LetPrint.Proofs.Scopes

/-! Compiled programs in listings.

The names of a program that was read are words, and a word neither breaks nor looks like an
integer, so all instructions of such a program are canonical (`WellFormed.canonical`). The
listing of a compiled text therefore gives back the instructions that it lists, and they run
as the text does (`survives_listing`). -/
namespace LetPrint
open Text

theorem unbroken_of_spells {kind : TokenKind} {text : List Char} (h : kind.Spells text) :
    Unbroken text :=
  ⟨ne_nil_of_spells h, isBlank_of_spells h⟩

/-- Neither a digit nor a minus sign can begin a word. -/
theorem IsWord.not_looksIntegral {word : List Char} (h : IsWord word) : ¬ LooksIntegral word := by
  obtain ⟨first, others, rfl, hfirst, _⟩ := h
  rintro (hdigits | ⟨digits, heq, _⟩)
  · rw [isWordStart_of_isDigit (hdigits.2 first (List.mem_cons_self ..))] at hfirst
    cases hfirst
  · cases heq
    exact absurd hfirst (by decide)

theorem canonical_reference {name : String} (h : TokenKind.ident.Spells name.toList) :
    Instr.Canonical ⟨.push, some (.reference name)⟩ :=
  .reference (unbroken_of_spells h) h.1.not_looksIntegral

theorem Expr.canonical {e : Expr} (h : ∀ n ∈ e.names, TokenKind.ident.Spells n.toList) :
    ∀ instr ∈ e.code, instr.Canonical := by
  induction e with
  | literal value span => exact List.forall_mem_singleton.2 (.immediate value)
  | var name span => exact List.forall_mem_singleton.2 (canonical_reference (h _ (by simp [names])))
  | binary left op right span ihl ihr =>
    rw [Expr.names, List.forall_mem_append] at h
    rw [Expr.code, List.forall_mem_append, List.forall_mem_append]
    refine ⟨⟨ihl h.1, ihr h.2⟩, List.forall_mem_singleton.2 (.bare ?_)⟩
    cases op <;> decide

theorem Stmt.canonical {s : Stmt} (h : ∀ n ∈ s.names, TokenKind.ident.Spells n.toList) :
    ∀ instr ∈ s.code, instr.Canonical := by
  rw [Stmt.names, List.forall_mem_append] at h
  cases s with
  | letStmt name value span =>
    rw [Stmt.code, List.forall_mem_append]
    have hname := h.1 name.raw (List.mem_singleton_self _)
    exact ⟨Expr.canonical h.2, List.forall_mem_singleton.2 (.store (unbroken_of_spells hname))⟩
  | printStmt value span =>
    rw [Stmt.code, List.forall_mem_append]
    exact ⟨Expr.canonical h.2, List.forall_mem_singleton.2 (.bare (by decide))⟩

/-- **The code of a well-formed program is canonical.** -/
theorem WellFormed.canonical {program : Program} (h : WellFormed program) :
    ∀ instr ∈ program.code, instr.Canonical := by
  intro instr hinstr
  obtain ⟨s, hs, hinstr⟩ := List.mem_flatMap.1 hinstr
  exact Stmt.canonical (h.spelled s hs) instr hinstr

/-- **The code of a text survives its listing.** It is read back as it was, and run then, it
reports what the text reports. -/
theorem survives_listing {text : String} {code : List Instr} (h : compileText text = .ok code) :
    Listing.read (Listing.write code) = .ok code ∧
      ∀ sink, (Listing.read (Listing.write code)).map (runCode (.plain sink)) =
        .ok (runText text "vm" sink) := by
  obtain ⟨program, hread, rfl⟩ := compileText_eq_ok.1 h
  have hback := Listing.read_write_of_canonical (wellFormed_of_readProgram hread).canonical
  refine ⟨hback, fun sink => ?_⟩
  rw [hback, runText_vm hread]
  rfl

/-- A name like a keyword, zeros in front of a literal, and a run that fails. -/
def zeroDivisorText : String :=
  "let _let = 007; print(_let / 0);"

def zeroDivisorCode : List Instr := [
  ⟨.push, some (.immediate 7)⟩, ⟨.store, some (.text "_let")⟩,
  ⟨.push, some (.reference "_let")⟩, ⟨.push, some (.immediate 0)⟩, ⟨.div, none⟩, ⟨.print, none⟩]

theorem survives_listing_zeroDivisorText :
    compileText zeroDivisorText = .ok zeroDivisorCode ∧
      Listing.read (Listing.write zeroDivisorCode) = .ok zeroDivisorCode ∧
      ∀ sink, (Listing.read (Listing.write zeroDivisorCode)).map (runCode (.plain sink)) =
        .ok (runText zeroDivisorText "vm" sink) := by
  have hcompile : compileText zeroDivisorText = .ok zeroDivisorCode := by decide +kernel
  exact ⟨hcompile, survives_listing hcompile⟩

end LetPrint
