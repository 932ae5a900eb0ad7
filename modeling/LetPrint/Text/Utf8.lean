/-! Reading UTF-8.

A file is a sequence of bytes. `Utf8.decode` gives its characters, or the first
place where the bytes are no UTF-8, with the number of bytes to blame and what
is wrong with them. -/
namespace LetPrint.Text.Utf8

inductive Problem where
  /-- A byte that no character begins with. -/
  | invalidStart
  /-- A byte that does not continue the character begun. -/
  | invalidContinuation
  /-- The text ends inside a character. -/
  | truncated
deriving DecidableEq, Repr

/-- The `count` bytes from `position` on begin no character; `first` is the first
of them. -/
structure Fault where
  first : UInt8
  position : Nat
  count : Nat
  problem : Problem
deriving DecidableEq, Repr

/-- The number of bytes of a character that begins with `b`, the low bits of `b`
that belong to it, and the bounds of its second byte. The bounds rule out the
longer encodings of a character, the surrogates and the numbers past the last. -/
def lead? (b : Nat) : Option (Nat × Nat × Nat × Nat) :=
  if 0xC2 ≤ b && b ≤ 0xDF then some (2, b - 0xC0, 0x80, 0xBF)
  else if 0xE0 ≤ b && b ≤ 0xEF then
    some (3, b - 0xE0, if b = 0xE0 then 0xA0 else 0x80, if b = 0xED then 0x9F else 0xBF)
  else if 0xF0 ≤ b && b ≤ 0xF4 then
    some (4, b - 0xF0, if b = 0xF0 then 0x90 else 0x80, if b = 0xF4 then 0x8F else 0xBF)
  else none

/-- The rest of a character: `needed` more bytes after the `taken` of which `bits`
is known, the next of them between `low` and `high`. -/
def continuation (needed taken bits low high : Nat) :
    List UInt8 → Except (Nat × Problem) (Char × List UInt8) :=
  match needed with
  | 0 => fun bytes => .ok (Char.ofNat bits, bytes)
  | needed + 1 => fun
    | [] => .error (taken, .truncated)
    | b :: bytes =>
      if low ≤ b.toNat && b.toNat ≤ high then
        continuation needed (taken + 1) (64 * bits + (b.toNat - 0x80)) 0x80 0xBF bytes
      else .error (taken, .invalidContinuation)

/-- The first character of a nonempty sequence of bytes, and the bytes after it. -/
def first (b : UInt8) (bytes : List UInt8) : Except (Nat × Problem) (Char × List UInt8) :=
  if b.toNat < 0x80 then .ok (Char.ofNat b.toNat, bytes)
  else match lead? b.toNat with
    | none => .error (1, .invalidStart)
    | some (size, bits, low, high) => continuation (size - 1) 1 bits low high bytes

theorem length_le_of_continuation {needed taken bits low high : Nat} {bytes rest : List UInt8}
    {c : Char} (h : continuation needed taken bits low high bytes = .ok (c, rest)) :
    rest.length ≤ bytes.length := by
  induction needed generalizing taken bits low high bytes with
  | zero =>
    simp only [continuation, Except.ok.injEq, Prod.mk.injEq] at h
    simp [h.2]
  | succ needed ih =>
    cases bytes with
    | nil => simp [continuation] at h
    | cons b bytes =>
      simp only [continuation] at h
      split at h
      · exact Nat.le_succ_of_le (ih h)
      · simp at h

/-- A character takes up at least one byte. -/
theorem length_le_of_first {b : UInt8} {bytes rest : List UInt8} {c : Char}
    (h : first b bytes = .ok (c, rest)) : rest.length ≤ bytes.length := by
  unfold first at h
  split at h
  · simp only [Except.ok.injEq, Prod.mk.injEq] at h
    simp [h.2]
  · split at h
    · simp at h
    · exact length_le_of_continuation h

/-- The characters of `bytes`, which stand at `position` of the file. -/
def decodeFrom (position : Nat) : List UInt8 → Except Fault (List Char)
  | [] => .ok []
  | b :: bytes =>
    match h : first b bytes with
    | .error (count, problem) => .error ⟨b, position, count, problem⟩
    | .ok (c, rest) =>
      have := length_le_of_first h
      (decodeFrom (position + c.utf8Size) rest).map (c :: ·)
termination_by bytes => bytes.length
decreasing_by simp only [List.length_cons]; omega

/-- The characters of a file. -/
def decode (bytes : List UInt8) : Except Fault (List Char) :=
  decodeFrom 0 bytes

end LetPrint.Text.Utf8
