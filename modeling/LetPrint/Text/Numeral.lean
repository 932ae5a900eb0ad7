import LetPrint.Text.Blank

/-! Reading a numeral.

A numeral is a run of decimal digits, of any script, with an optional sign in
front; single underscores may stand between two digits, and spaces around the
whole are ignored. The lexer only ever produces runs of the digits 0 to 9, but a
token may also be put together by hand, and then its text is read by the same
rule. -/
namespace LetPrint.Text.Numeral

/-- The characters for zero (as of Unicode 14). The nine characters after each
are the digits one to nine of its script. -/
def zeros : List Nat := [
  0x30, 0x660, 0x6F0, 0x7C0, 0x966, 0x9E6, 0xA66, 0xAE6, 0xB66, 0xBE6, 0xC66, 0xCE6, 0xD66, 0xDE6,
  0xE50, 0xED0, 0xF20, 0x1040, 0x1090, 0x17E0, 0x1810, 0x1946, 0x19D0, 0x1A80, 0x1A90, 0x1B50,
  0x1BB0, 0x1C40, 0x1C50, 0xA620, 0xA8D0, 0xA900, 0xA9D0, 0xA9F0, 0xAA50, 0xABF0, 0xFF10, 0x104A0,
  0x10D30, 0x11066, 0x110F0, 0x11136, 0x111D0, 0x112F0, 0x11450, 0x114D0, 0x11650, 0x116C0,
  0x11730, 0x118E0, 0x11950, 0x11C50, 0x11D50, 0x11DA0, 0x16A60, 0x16AC0, 0x16B50, 0x1D7CE,
  0x1D7D8, 0x1D7E2, 0x1D7EC, 0x1D7F6, 0x1E140, 0x1E2F0, 0x1E950, 0x1FBF0]

/-- The value of a decimal digit of any script. -/
def digitValue? (c : Char) : Option Nat :=
  (zeros.find? fun z => z ≤ c.toNat && c.toNat < z + 10).map (c.toNat - ·)

/-- The value of a run of digits, of which those with value `value` are read. An
underscore is skipped when a digit follows it. -/
def readDigits (value : Nat) : List Char → Option Nat
  | [] => some value
  | '_' :: c :: cs =>
    match digitValue? c with
    | some d => readDigits (10 * value + d) cs
    | none => none
  | c :: cs =>
    match digitValue? c with
    | some d => readDigits (10 * value + d) cs
    | none => none

/-- The value of a nonempty run of digits. -/
def readUnsigned : List Char → Option Nat
  | [] => none
  | c :: cs => (digitValue? c).bind fun d => readDigits d cs

/-- Blanks that may surround a numeral: all but the four separator controls. -/
def isPadding (c : Char) : Bool :=
  isBlank c && !(0x1C ≤ c.toNat && c.toNat ≤ 0x1F)

/-- A text without the padding at its ends. -/
def unpadded (cs : List Char) : List Char :=
  ((cs.dropWhile isPadding).reverse.dropWhile isPadding).reverse

/-- The integer that a text writes, if it writes one. -/
def read (text : String) : Option Int :=
  match unpadded text.toList with
  | '-' :: cs => (readUnsigned cs).map fun n => -(n : Int)
  | '+' :: cs => (readUnsigned cs).map Int.ofNat
  | cs => (readUnsigned cs).map Int.ofNat

end LetPrint.Text.Numeral
