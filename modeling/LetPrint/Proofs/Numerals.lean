import LetPrint.Proofs.Spelling
import LetPrint.Text.Decimal
import LetPrint.Text.Numeral
import Mathlib.Data.List.Induction

/-! What a number token is worth.

A run of the digits 0 to 9 is read as the number that it writes in base ten
(`Numeral.read_digits`). To write that number gives the digits back, except for zeros
in front (`zeros_append_chars`). -/
namespace LetPrint.Text

/-- A text of digits, the way a number token is spelled. -/
def IsDigits (cs : List Char) : Prop :=
  TokenKind.number.Spells cs

namespace Numeral

/-! ### The value that is read -/

/-- The digits 0 to 9 come first in the table of digits. -/
theorem digitValue?_of_isDigit {c : Char} (h : c.isDigit) :
    digitValue? c = some (c.toNat - 48) := by
  have hc := isDigit_iff.1 h
  have hfirst : (decide (0x30 ≤ c.toNat) && decide (c.toNat < 0x30 + 10)) = true := by
    rw [Bool.and_eq_true, decide_eq_true_eq, decide_eq_true_eq]
    omega
  have hfind : zeros.find? (fun z => z ≤ c.toNat && c.toNat < z + 10) = some 0x30 := by
    rw [zeros]
    exact List.find?_cons_of_pos hfirst
  rw [digitValue?, hfind, Option.map_some]

theorem readDigits_cons {c : Char} (value : Nat) (cs : List Char) (h : c.isDigit) :
    readDigits value (c :: cs) = readDigits (10 * value + (c.toNat - 48)) cs := by
  have hne : c ≠ '_' := by
    intro heq
    subst heq
    exact absurd h (by decide)
  rw [readDigits.eq_def]
  split
  · next heq => cases heq
  · next heq =>
    cases heq
    exact absurd rfl hne
  · next heq =>
    cases heq
    rw [digitValue?_of_isDigit h]

theorem readDigits_digits {digits : List Char} (h : ∀ c ∈ digits, c.isDigit) (value : Nat) :
    readDigits value digits = some (Nat.ofDigitChars 10 digits value) := by
  induction digits generalizing value with
  | nil => rw [readDigits, Nat.ofDigitChars_nil]
  | cons c cs ih =>
    rw [readDigits_cons value cs (h c (List.mem_cons_self ..)), Nat.ofDigitChars_cons]
    exact ih (fun d hd => h d (List.mem_cons_of_mem c hd)) _

theorem isPadding_of_isDigit {c : Char} (h : c.isDigit) : isPadding c = false := by
  rw [isPadding, isBlank_of_isWordChar (isWordChar_of_isDigit h), Bool.false_and]

/-- Nothing is cut off from a text without padding. -/
theorem unpadded_of_not_padding {cs : List Char} (h : ∀ c ∈ cs, isPadding c = false) :
    unpadded cs = cs := by
  have hkeep : ∀ ds : List Char, (∀ c ∈ ds, isPadding c = false) → ds.dropWhile isPadding = ds := by
    intro ds hds
    cases ds with
    | nil => rfl
    | cons c ds => rw [List.dropWhile_cons_of_neg (by rw [hds c (List.mem_cons_self ..)]; decide)]
  rw [unpadded, hkeep cs h, hkeep cs.reverse (fun c hc => h c (List.mem_reverse.1 hc)),
    List.reverse_reverse]

theorem readUnsigned_digits {digits : List Char} (h : IsDigits digits) :
    readUnsigned digits = some (Nat.ofDigitChars 10 digits 0) := by
  obtain ⟨hne, hdigits⟩ := h
  obtain ⟨c, cs, rfl⟩ := List.exists_cons_of_ne_nil hne
  have hc := hdigits c (List.mem_cons_self ..)
  have hcs : ∀ d ∈ cs, d.isDigit := fun d hd => hdigits d (List.mem_cons_of_mem c hd)
  rw [readUnsigned, digitValue?_of_isDigit hc, Option.bind_some, readDigits_digits hcs,
    Nat.ofDigitChars_cons, Nat.mul_zero, Nat.zero_add]
  rfl

/-- **A run of digits is read in base ten**, however long it is. -/
theorem read_digits {text : String} (h : IsDigits text.toList) :
    read text = some (Int.ofNat (Nat.ofDigitChars 10 text.toList 0)) := by
  have hpadding : ∀ c ∈ text.toList, isPadding c = false := fun c hc =>
    isPadding_of_isDigit (h.2 c hc)
  have hsign : ∀ c ∈ text.toList, c ≠ '-' ∧ c ≠ '+' := by
    intro c hc
    refine ⟨fun heq => ?_, fun heq => ?_⟩ <;> subst heq <;> exact absurd (h.2 _ hc) (by decide)
  rw [read, unpadded_of_not_padding hpadding]
  split
  · next cs heq => exact absurd rfl (hsign '-' (heq ▸ List.mem_cons_self ..)).1
  · next cs heq => exact absurd rfl (hsign '+' (heq ▸ List.mem_cons_self ..)).2
  · rw [readUnsigned_digits h]
    rfl

end Numeral

/-! ### The text that is written -/

theorem toDigits_digit {c : Char} (h : c.isDigit) : Nat.toDigits 10 (c.toNat - 48) = [c] := by
  have hc := isDigit_iff.1 h
  rw [Nat.toDigits_of_lt_base (by omega)]
  congr 1
  apply Char.toNat_inj.1
  rw [Nat.toNat_digitChar_of_lt_ten (by omega)]
  omega

theorem ofDigitChars_append_digit (digits : List Char) (c : Char) :
    Nat.ofDigitChars 10 (digits ++ [c]) 0 =
      10 * Nat.ofDigitChars 10 digits 0 + (c.toNat - 48) := by
  rw [Nat.ofDigitChars_append, Nat.ofDigitChars_cons, Nat.ofDigitChars_nil]
  rfl

/-- **Written again, a run of digits only loses zeros in front.** The last digit is set
apart because it is the only one that the number zero keeps. -/
theorem zeros_append_toDigits {digits : List Char} (h : IsDigits digits) :
    ∃ zeros, digits =
      List.replicate zeros '0' ++ Nat.toDigits 10 (Nat.ofDigitChars 10 digits 0) := by
  obtain ⟨hne, hdigits⟩ := h
  induction digits using List.reverseRecOn with
  | nil => exact absurd rfl hne
  | append_singleton front c ih =>
    have hc : c.isDigit := hdigits c (List.mem_append_right front (List.mem_singleton_self c))
    have hfront : ∀ d ∈ front, d.isDigit := fun d hd => hdigits d (List.mem_append_left [c] hd)
    have hsmall := isDigit_iff.1 hc
    rw [ofDigitChars_append_digit]
    by_cases hnil : front = []
    · subst hnil
      refine ⟨0, ?_⟩
      rw [Nat.ofDigitChars_nil, Nat.mul_zero, Nat.zero_add, toDigits_digit hc]
      rfl
    · obtain ⟨zeros, hzeros⟩ := ih hnil hfront
      generalize Nat.ofDigitChars 10 front 0 = value at hzeros ⊢
      rcases Nat.eq_zero_or_pos value with rfl | hpos
      · refine ⟨zeros + 1, ?_⟩
        rw [Nat.mul_zero, Nat.zero_add, toDigits_digit hc, hzeros, Nat.toDigits_zero,
          List.replicate_succ']
      · refine ⟨zeros, ?_⟩
        rw [← Nat.toDigits_append_toDigits (by decide) hpos (by omega), toDigits_digit hc,
          ← List.append_assoc, ← hzeros]

end LetPrint.Text
