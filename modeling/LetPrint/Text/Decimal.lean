/-! Writing integers.

Integers are written in full, whatever their size. Some texts, however, may only
hold integers of moderate length: `Decimal.fits` says which. -/
namespace LetPrint.Text.Decimal

/-- An integer in decimal, with a minus sign if it is negative. -/
def chars : Int → List Char
  | .ofNat n => Nat.toDigits 10 n
  | .negSucc n => '-' :: Nat.toDigits 10 (n + 1)

def write (n : Int) : String :=
  String.ofList (chars n)

/-- The most digits that an integer may have in a text of bounded length. -/
def digitLimit : Nat := 4300

/-- The first natural number that is too long. -/
def firstTooLong : Nat := Nat.pow 10 digitLimit

/-- Whether an integer has at most `digitLimit` digits; its sign does not count. -/
def fits (n : Int) : Bool :=
  n.natAbs < firstTooLong

/-- A text padded with spaces in front to at least `width` characters. -/
def rightAligned (width : Nat) (text : List Char) : List Char :=
  List.replicate (width - text.length) ' ' ++ text

end LetPrint.Text.Decimal
