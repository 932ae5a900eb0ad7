import LetPrint.Code.Listing
import LetPrint.Proofs.ListingLines
import LetPrint.Proofs.Numerals

/-! What a listing keeps.

A listing has no place for some instructions: an argument where none is taken, a name
that is no word, a variable that looks like an integer. The others are `Canonical`. They
come back as they were written (`read_write_of_canonical`), and nothing else is ever read
(`canonical_of_read`), so that to write and read gives back exactly the lists of
canonical instructions (`codec_exact`). -/
namespace LetPrint

/-! ### Arguments that look like integers -/

namespace Text

/-- A text that looks like an integer: digits, perhaps after a minus sign. -/
def LooksIntegral (cs : List Char) : Prop :=
  IsDigits cs ∨ ∃ digits, cs = '-' :: digits ∧ IsDigits digits

theorem isDigits_toDigits (n : Nat) : IsDigits (Nat.toDigits 10 n) :=
  ⟨Nat.toDigits_ne_nil, fun _ hc => Nat.isDigit_of_mem_toDigits (by decide) (by decide) hc⟩

theorem Decimal.looksIntegral_chars (value : Int) : LooksIntegral (Decimal.chars value) := by
  cases value with
  | ofNat n => exact .inl (isDigits_toDigits n)
  | negSucc n => exact .inr ⟨_, rfl, isDigits_toDigits (n + 1)⟩

theorem unbroken_of_wordChars {cs : List Char} (hne : cs ≠ []) (h : ∀ c ∈ cs, isWordChar c) :
    Unbroken cs :=
  ⟨hne, fun c hc => isBlank_of_isWordChar (h c hc)⟩

theorem LooksIntegral.unbroken {cs : List Char} (h : LooksIntegral cs) : Unbroken cs := by
  have hdigits : ∀ digits, IsDigits digits → Unbroken digits := fun digits h =>
    unbroken_of_wordChars h.1 fun c hc => isWordChar_of_isDigit (h.2 c hc)
  rcases h with h | ⟨digits, rfl, h⟩
  · exact hdigits cs h
  · refine ⟨List.cons_ne_nil _ _, fun c hc => ?_⟩
    rcases List.mem_cons.1 hc with rfl | hc
    · decide
    · exact (hdigits digits h).2 c hc

/-- An integer stands on one line. -/
theorem Decimal.feed_not_mem_chars (value : Int) : '\n' ∉ Decimal.chars value := by
  intro hfeed
  have hblank := (Decimal.looksIntegral_chars value).unbroken.2 '\n' hfeed
  exact absurd hblank (by decide)

end Text

namespace Listing
open Text

theorem natural?_of_isDigits {word : List Char} (h : IsDigits word) :
    natural? word = some (Nat.ofDigitChars 10 word 0) := by
  have hne : word.isEmpty = false := List.isEmpty_eq_false_iff.2 h.1
  have hall : word.all Char.isDigit = true := List.all_eq_true.2 h.2
  rw [natural?, hne, hall]
  rfl

theorem natural?_of_not_isDigits {word : List Char} (h : ¬ IsDigits word) :
    natural? word = none := by
  refine if_neg fun hdigits => h ?_
  rw [Bool.and_eq_true, Bool.not_eq_true', List.isEmpty_eq_false_iff] at hdigits
  exact ⟨hdigits.1, List.all_eq_true.1 hdigits.2⟩

theorem integer?_of_no_sign {word : List Char} (h : word.head? ≠ some '-') :
    integer? word = (natural? word).map Int.ofNat := by
  rw [integer?.eq_def]
  split
  · exact absurd rfl h
  · rfl

theorem integer?_minus (digits : List Char) :
    integer? ('-' :: digits) = (natural? digits).map fun n : Nat => -(n : Int) := by
  rw [integer?]
  cases natural? digits <;> rfl

/-- A word has a value exactly if it looks like an integer. -/
theorem integer?_eq_none_iff {word : List Char} : integer? word = none ↔ ¬ LooksIntegral word := by
  constructor
  · intro h hlooks
    rcases hlooks with hdigits | ⟨digits, rfl, hdigits⟩
    · obtain ⟨c, cs, rfl⟩ := List.exists_cons_of_ne_nil hdigits.1
      have hsign : (c :: cs).head? ≠ some '-' := by
        rintro heq
        cases heq
        exact absurd (hdigits.2 '-' (List.mem_cons_self ..)) (by decide)
      rw [integer?_of_no_sign hsign, natural?_of_isDigits hdigits] at h
      cases h
    · rw [integer?_minus, natural?_of_isDigits hdigits] at h
      cases h
  · intro h
    by_cases hsign : word.head? = some '-'
    · obtain ⟨digits, rfl⟩ := List.head?_eq_some_iff.1 hsign
      have hdigits : ¬ IsDigits digits := fun hdigits => h (.inr ⟨digits, rfl, hdigits⟩)
      rw [integer?_minus, natural?_of_not_isDigits hdigits, Option.map_none]
    · have hdigits : ¬ IsDigits word := fun hdigits => h (.inl hdigits)
      rw [integer?_of_no_sign hsign, natural?_of_not_isDigits hdigits, Option.map_none]

/-- **An integer is read as it was written**, however long it is. -/
theorem integer?_chars (value : Int) : integer? (Decimal.chars value) = some value := by
  cases value with
  | ofNat n =>
    have hdigits := isDigits_toDigits n
    have hsign : (Nat.toDigits 10 n).head? ≠ some '-' := by
      intro heq
      exact absurd (hdigits.2 '-' (List.mem_of_mem_head? heq)) (by decide)
    rw [Decimal.chars, integer?_of_no_sign hsign, natural?_of_isDigits hdigits,
      Nat.ofDigitChars_ten_toDigits, Option.map_some]
  | negSucc n =>
    rw [Decimal.chars, integer?_minus, natural?_of_isDigits (isDigits_toDigits (n + 1)),
      Nat.ofDigitChars_ten_toDigits, Option.map_some]
    rfl

end Listing

/-! ### Instructions that a listing can hold -/

open Text in
/-- An instruction with the argument that its operation takes, if that can stand in a
listing and be told from arguments of another sort. -/
inductive Instr.Canonical : Instr → Prop
  | immediate (value : Int) : Canonical ⟨.push, some (.immediate value)⟩
  | reference {name : String} : Unbroken name.toList → ¬ LooksIntegral name.toList →
    Canonical ⟨.push, some (.reference name)⟩
  | store {name : String} : Unbroken name.toList → Canonical ⟨.store, some (.text name)⟩
  | bare {op : Opcode} : op ∈ [Opcode.add, .sub, .mul, .div, .print] → Canonical ⟨op, none⟩

namespace Listing
open Text

theorem ofMnemonic?_mnemonic (op : Opcode) : Opcode.ofMnemonic? op.mnemonic = some op := by
  cases op <;> decide

theorem unbroken_mnemonic (op : Opcode) : Unbroken op.mnemonic.toList := by
  cases op <;> exact unbroken_of_wordChars (by decide) (List.all_eq_true.1 rfl)

/-! ### One line -/

theorem phrase_chars_none (op : Opcode) :
    (⟨op, none⟩ : Instr).phrase.chars = op.mnemonic.toList := by
  simp [Instr.phrase, Phrase.chars, Piece.chars]

theorem phrase_chars_some (op : Opcode) (arg : Argument) :
    (⟨op, some arg⟩ : Instr).phrase.chars = op.mnemonic.toList ++ ' ' :: arg.phrase.chars := by
  simp [Instr.phrase, Phrase.chars, Piece.chars]

theorem words_phrase_none (op : Opcode) :
    words (⟨op, none⟩ : Instr).phrase.chars = [op.mnemonic.toList] := by
  rw [phrase_chars_none, words_of_unbroken (unbroken_mnemonic op)]

theorem words_phrase_some (op : Opcode) {arg : Argument} (h : Unbroken arg.phrase.chars) :
    words (⟨op, some arg⟩ : Instr).phrase.chars = [op.mnemonic.toList, arg.phrase.chars] := by
  rw [phrase_chars_some, words_cons (unbroken_mnemonic op) (by decide), words_of_unbroken h]

theorem readLine_of_words {line : List Char} {op : Opcode} {arguments : List (List Char)}
    (h : words line = op.mnemonic.toList :: arguments) :
    readLine line = (instrOf op arguments).map some := by
  simp only [readLine, h, String.ofList_toList, ofMnemonic?_mnemonic]

/-- An instruction on a line is one that some words of the line write. -/
theorem exists_instrOf_of_readLine {line : List Char} {instr : Instr}
    (h : readLine line = .ok (some instr)) :
    ∃ op arguments, (∀ word ∈ arguments, Unbroken word) ∧ instrOf op arguments = .ok instr := by
  rw [readLine] at h
  cases hwords : words line with
  | nil =>
    rw [hwords] at h
    cases h
  | cons word arguments =>
    rw [hwords] at h
    dsimp only at h
    cases hop : Opcode.ofMnemonic? (String.ofList word) with
    | none =>
      rw [hop] at h
      cases h
    | some op =>
      rw [hop] at h
      dsimp only at h
      cases hinstr : instrOf op arguments with
      | error fault =>
        rw [hinstr] at h
        cases h
      | ok found =>
        rw [hinstr] at h
        cases h
        refine ⟨op, arguments, fun w hw => ?_, hinstr⟩
        exact unbroken_of_mem_words (hwords ▸ List.mem_cons_of_mem word hw)

/-- Whatever words write, it is canonical. -/
theorem canonical_of_instrOf {op : Opcode} {arguments : List (List Char)} {instr : Instr}
    (hwords : ∀ word ∈ arguments, Unbroken word) (h : instrOf op arguments = .ok instr) :
    instr.Canonical := by
  rw [instrOf.eq_def] at h
  split at h
  · next word =>
    cases h
    rw [operand]
    cases hvalue : integer? word with
    | some value => exact .immediate value
    | none =>
      have hlooks := integer?_eq_none_iff.1 hvalue
      have hword := hwords word (List.mem_singleton_self word)
      rw [← String.toList_ofList (l := word)] at hlooks hword
      exact .reference hword hlooks
  · next word =>
    cases h
    refine .store ?_
    rw [String.toList_ofList]
    exact hwords word (List.mem_singleton_self word)
  · next hpush hstore =>
    split at h
    · next hcount =>
      cases h
      cases op with
      | push =>
        obtain ⟨word, rfl⟩ := List.length_eq_one_iff.1 hcount
        exact absurd rfl (hpush word rfl)
      | store =>
        obtain ⟨word, rfl⟩ := List.length_eq_one_iff.1 hcount
        exact absurd rfl (hstore word rfl)
      | add | sub | mul | div | print => exact .bare (by decide)
    · cases h

theorem chars_immediate (value : Int) :
    (Argument.immediate value).phrase.chars = Decimal.chars value := by
  simp [Argument.phrase, Phrase.chars, Piece.chars]

theorem chars_reference (name : String) :
    (Argument.reference name).phrase.chars = name.toList := by
  simp [Argument.phrase, Phrase.chars, Piece.chars]

theorem chars_text (name : String) : (Argument.text name).phrase.chars = name.toList := by
  simp [Argument.phrase, Phrase.chars, Piece.chars]

/-- An argument that a listing can hold is one word. -/
theorem unbroken_argument {op : Opcode} {arg : Argument}
    (h : Instr.Canonical ⟨op, some arg⟩) : Unbroken arg.phrase.chars := by
  cases h with
  | immediate value =>
    rw [chars_immediate]
    exact (Decimal.looksIntegral_chars value).unbroken
  | reference hname _ =>
    rw [chars_reference]
    exact hname
  | store hname =>
    rw [chars_text]
    exact hname

/-- **The line of a canonical instruction is read as that instruction.** -/
theorem readLine_phrase {instr : Instr} (h : instr.Canonical) :
    readLine instr.phrase.chars = .ok (some instr) := by
  cases h with
  | immediate value =>
    have hword := unbroken_argument (.immediate value)
    rw [readLine_of_words (words_phrase_some .push hword), chars_immediate, instrOf, operand,
      integer?_chars]
    rfl
  | @reference name hname hlooks =>
    have hword := unbroken_argument (.reference hname hlooks)
    rw [readLine_of_words (words_phrase_some .push hword), chars_reference, instrOf, operand,
      integer?_eq_none_iff.2 hlooks, String.ofList_toList]
    rfl
  | @store name hname =>
    have hword := unbroken_argument (.store hname)
    rw [readLine_of_words (words_phrase_some .store hword), chars_text, instrOf,
      String.ofList_toList]
    rfl
  | @bare op hop =>
    rw [readLine_of_words (words_phrase_none op)]
    simp only [List.mem_cons, List.not_mem_nil, or_false] at hop
    rcases hop with rfl | rfl | rfl | rfl | rfl <;> rfl

theorem isLineEnd_of_unbroken {word : List Char} (h : Unbroken word) :
    ∀ c ∈ word, isLineEnd c = false := by
  intro c hc
  rw [Bool.eq_false_iff]
  intro hend
  have hblank := h.2 c hc
  rw [isBlank_of_isLineEnd hend] at hblank
  cases hblank

theorem isLineEnd_of_phrase {instr : Instr} (h : instr.Canonical) :
    ∀ c ∈ instr.phrase.chars, isLineEnd c = false := by
  obtain ⟨op, arg⟩ := instr
  cases arg with
  | none =>
    rw [phrase_chars_none]
    exact isLineEnd_of_unbroken (unbroken_mnemonic op)
  | some arg =>
    intro c hc
    rw [phrase_chars_some, List.mem_append, List.mem_cons] at hc
    rcases hc with hc | rfl | hc
    · exact isLineEnd_of_unbroken (unbroken_mnemonic op) c hc
    · decide
    · exact isLineEnd_of_unbroken (unbroken_argument h) c hc

/-! ### Whole listings -/

theorem chars_cons (instr : Instr) (code : List Instr) :
    chars (instr :: code) = instr.phrase.chars ++ '\n' :: chars code := by
  simp [chars]

theorem readLines_cons {line : List Char} {instr : Instr} (h : readLine line = .ok (some instr))
    (number : Nat) (lines : List (List Char)) :
    readLines number (line :: lines) = (readLines (number + 1) lines).map (instr :: ·) := by
  rw [readLines, h]
  rfl

/-- **Canonical instructions come back** as they were written. -/
theorem read_write_of_canonical {code : List Instr} (h : ∀ instr ∈ code, instr.Canonical) :
    read (write code) = .ok code := by
  have hlines : ∀ number, readLines number (brokenLines (chars code)) = .ok code := by
    induction code with
    | nil => exact fun number => rfl
    | cons instr code ih =>
      intro number
      have hfirst := h instr (List.mem_cons_self ..)
      rw [chars_cons, brokenLines_append_feed (isLineEnd_of_phrase hfirst),
        readLines_cons (readLine_phrase hfirst), ih fun i hi => h i (List.mem_cons_of_mem instr hi)]
      rfl
  rw [read, write, String.toList_ofList]
  exact hlines 1

/-- **Nothing but canonical instructions is read.** -/
theorem canonical_of_readLines {number : Nat} {lines : List (List Char)} {code : List Instr}
    (h : readLines number lines = .ok code) : ∀ instr ∈ code, instr.Canonical := by
  induction lines generalizing number code with
  | nil =>
    cases h
    exact fun i hi => absurd hi List.not_mem_nil
  | cons line lines ih =>
    rw [readLines] at h
    cases hline : readLine line with
    | error fault =>
      rw [hline] at h
      cases h
    | ok found =>
      rw [hline] at h
      dsimp only at h
      cases hrest : readLines (number + 1) lines with
      | error fault =>
        rw [hrest] at h
        cases h
      | ok rest =>
        rw [hrest] at h
        cases h
        intro instr hinstr
        rcases List.mem_append.1 hinstr with hfirst | hlater
        · rw [Option.mem_toList] at hfirst
          cases hfirst
          obtain ⟨op, arguments, hwords, hinstr⟩ := exists_instrOf_of_readLine hline
          exact canonical_of_instrOf hwords hinstr
        · exact ih hrest instr hlater

theorem canonical_of_read {text : String} {code : List Instr} (h : read text = .ok code) :
    ∀ instr ∈ code, instr.Canonical :=
  canonical_of_readLines h

/-- **A listing keeps exactly the canonical instructions.** What is read from any text is
canonical, and so it is read again when it is written. -/
theorem codec_exact :
    (∀ code : List Instr, read (write code) = .ok code ↔ ∀ instr ∈ code, instr.Canonical) ∧
      ∀ (text : String) (code : List Instr), read text = .ok code →
        (∀ instr ∈ code, instr.Canonical) ∧ read (write code) = .ok code := by
  constructor
  · intro code
    exact ⟨canonical_of_read, read_write_of_canonical⟩
  · intro text code h
    have hcanonical := canonical_of_read h
    exact ⟨hcanonical, read_write_of_canonical hcanonical⟩

/-- Lines that end in unusual ways, with blanks all around and zeros in front of an integer. -/
def looseListing : String :=
  "\tPUSH  -007\x0bSTORE\u2003-x\u2028\r\n ADD"

def looseCode : List Instr :=
  [⟨.push, some (.immediate (-7))⟩, ⟨.store, some (.text "-x")⟩, ⟨.add, none⟩]

theorem codec_exact_looseListing :
    read looseListing = .ok looseCode ∧ (∀ instr ∈ looseCode, instr.Canonical) ∧
      read (write looseCode) = .ok looseCode ∧ write looseCode = "PUSH -7\nSTORE -x\nADD\n" := by
  have hread : read looseListing = .ok looseCode := by decide +kernel
  obtain ⟨hcanonical, hagain⟩ := codec_exact.2 looseListing looseCode hread
  exact ⟨hread, hcanonical, hagain, rfl⟩

end Listing

end LetPrint
