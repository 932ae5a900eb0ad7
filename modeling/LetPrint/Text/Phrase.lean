import LetPrint.Text.Decimal

/-! Texts with integers in them.

A description is put together first and its integers are written last, because
two readers want them differently: a listing or a log writes integers in full
(`Phrase.write`), while a diagnostic or a dump refuses a text that holds an
integer too long to show (`Phrase.writeShort?`). -/
namespace LetPrint.Text

/-- A part of a description. -/
inductive Piece where
  | verbatim (text : String)
  | number (value : Int)
deriving DecidableEq, Repr

/-- A description, part by part. -/
abbrev Phrase := List Piece

namespace Piece

def chars : Piece → List Char
  | verbatim text => text.toList
  | number value => Decimal.chars value

def fits : Piece → Bool
  | verbatim _ => true
  | number value => Decimal.fits value

instance : Coe String Piece := ⟨verbatim⟩
instance : Coe Int Piece := ⟨number⟩

end Piece

namespace Phrase

/-- A description that is one text. -/
def text (s : String) : Phrase :=
  [.verbatim s]

/-- Descriptions with a text between each two. -/
def joined (between : String) (parts : List Phrase) : Phrase :=
  (text between).intercalate parts

def chars (p : Phrase) : List Char :=
  p.flatMap Piece.chars

/-- The description with every integer in full. -/
def write (p : Phrase) : String :=
  String.ofList p.chars

/-- The description, unless one of its integers is too long. -/
def writeShort? (p : Phrase) : Option String :=
  if p.all Piece.fits then some p.write else none

end Phrase

end LetPrint.Text
