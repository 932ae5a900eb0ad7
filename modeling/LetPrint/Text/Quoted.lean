import LetPrint.Text.Printable

/-! Texts made visible.

`quoted` shows a text between quotation marks with every unprintable character
escaped, as diagnostics and dumps show names and characters. `asciiEscaped`
leaves the marks out and escapes whatever is not printable ASCII, as the token
dump shows the text of a token. -/
namespace LetPrint.Text

/-- A number in base 16, padded with zeros to `width` digits. -/
def hexDigits (width n : Nat) : List Char :=
  let digits := Nat.toDigits 16 n
  List.replicate (width - digits.length) '0' ++ digits

/-- A character by its number: two, four or eight digits, the fewest that suffice. -/
def numberEscape (c : Char) : List Char :=
  let n := c.toNat
  if n < 0x100 then '\\' :: 'x' :: hexDigits 2 n
  else if n < 0x10000 then '\\' :: 'u' :: hexDigits 4 n
  else '\\' :: 'U' :: hexDigits 8 n

/-- A character with a backslash where it needs one: before a backslash, for the
three common control characters, and for whatever is not `plain`. -/
def escaped (plain : Char → Bool) (c : Char) : List Char :=
  if c = '\\' then ['\\', '\\']
  else if c = '\n' then ['\\', 'n']
  else if c = '\r' then ['\\', 'r']
  else if c = '\t' then ['\\', 't']
  else if plain c then [c]
  else numberEscape c

/-- The mark that quotes a text: the single one, unless the text holds that mark
and not the double one. -/
def quotationMark (cs : List Char) : Char :=
  if cs.contains '\x27' && !cs.contains '\x22' then '\x22' else '\x27'

/-- A text between quotation marks, escaped so that it can be told from any other. -/
def quotedChars (cs : List Char) : List Char :=
  let mark := quotationMark cs
  mark :: cs.flatMap (fun c => if c = mark then ['\\', c] else escaped isPrintable c) ++ [mark]

def quoted (text : String) : String :=
  String.ofList (quotedChars text.toList)

/-- A text in printable ASCII, without quotation marks. -/
def asciiEscaped (text : String) : String :=
  String.ofList (text.toList.flatMap (escaped fun c => 0x20 ≤ c.toNat && c.toNat ≤ 0x7E))

end LetPrint.Text
