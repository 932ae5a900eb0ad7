/-! Writing binary floating-point numbers.

A number in binary64 stands for every real number that is nearer to it than to
its neighbours. `Binary64.shortest` finds a decimal among those with as few
digits as possible, the nearest of them; `Binary64.write` lays the digits out,
positionally from 0.0001 to below 10^16 and with an exponent elsewhere. -/
namespace LetPrint.Text

/-- A binary64 number, by its bits. -/
structure Binary64 where
  bits : UInt64
deriving DecidableEq, Repr

namespace Binary64

def isNegative (x : Binary64) : Bool :=
  Nat.pow 2 63 ≤ x.bits.toNat

def exponentField (x : Binary64) : Nat :=
  x.bits.toNat / Nat.pow 2 52 % Nat.pow 2 11

def fractionField (x : Binary64) : Nat :=
  x.bits.toNat % Nat.pow 2 52

/-- A finite number is `significand * 2 ^ (max exponentField 1 - 1075)`, but for its sign. -/
def significand (x : Binary64) : Nat :=
  if x.exponentField = 0 then x.fractionField else Nat.pow 2 52 + x.fractionField

/-- The numbers that read back to `x`, in quarters of its last place: the ends of
the interval, and whether they belong to it. Below a power of two the gap is half
as wide. -/
def interval (x : Binary64) : Nat × Nat × Bool :=
  let quarters := 4 * x.significand
  let below := if x.fractionField = 0 && 1 < x.exponentField then 1 else 2
  (quarters - below, quarters + 2, x.significand % 2 = 0)

/-- `base ^ n` as a factor and a divisor, one of which is 1. -/
def power (base : Nat) (n : Int) : Nat × Nat :=
  (base.pow n.toNat, base.pow (-n).toNat)

/-- The best multiple of `10 ^ e` that reads back to `x`: one of the two around it. -/
def onGrid? (x : Binary64) (e : Int) : Option Nat :=
  let (low, high, closed) := x.interval
  let (binary, binaryBelow) := power 2 (max (x.exponentField : Int) 1 - 1077)
  let (decimal, decimalBelow) := power 10 e
  let scaled := fun quarters : Nat => quarters * binary * decimalBelow
  let grid := decimal * binaryBelow
  let value := scaled (4 * x.significand)
  let readsBack := fun c : Nat =>
    if closed then decide (scaled low ≤ c * grid) && decide (c * grid ≤ scaled high)
    else decide (scaled low < c * grid) && decide (c * grid < scaled high)
  let c := value / grid
  let up := 2 * value > (2 * c + 1) * grid || (2 * value = (2 * c + 1) * grid && c % 2 = 1)
  match readsBack c, readsBack (c + 1) with
  | true, true => some (if up then c + 1 else c)
  | true, false => some c
  | false, true => some (c + 1)
  | false, false => none

/-- The least power of ten above a nonzero finite `x`. -/
def scale (x : Binary64) : Int :=
  let (binary, binaryBelow) := power 2 (max (x.exponentField : Int) 1 - 1075)
  let above := fun k : Int =>
    let (decimal, decimalBelow) := power 10 k
    decide (x.significand * binary * decimalBelow < decimal * binaryBelow)
  (((List.range 700).map fun i : Nat => (i : Int) - 340).find? above).getD 0

/-- The fewest digits that read back to a nonzero finite `x`, as a natural number
and the power of ten it is a multiple of. -/
def shortest (x : Binary64) : Nat × Int :=
  let found := (List.range 17).findSome? fun n : Nat =>
    let e := x.scale - (n + 1)
    (x.onGrid? e).map (·, e)
  found.getD (0, 0)

/-- Digits with a point after the first `point` of them: `0.00ddd`, `dd00.0` or `dd.ddd`. -/
def positional (digits : List Char) (point : Int) : List Char :=
  if point ≤ 0 then '0' :: '.' :: List.replicate (-point).toNat '0' ++ digits
  else if digits.length ≤ point then
    digits ++ List.replicate (point.toNat - digits.length) '0' ++ ['.', '0']
  else digits.take point.toNat ++ '.' :: digits.drop point.toNat

/-- Digits with a point after the first and an exponent of at least two digits. -/
def scientific (digits : List Char) (point : Int) : List Char :=
  let exponent := point - 1
  let size := Nat.toDigits 10 exponent.natAbs
  let mantissa := match digits with
    | [] => []
    | [d] => [d]
    | d :: ds => d :: '.' :: ds
  mantissa ++ 'e' :: (if exponent < 0 then '-' else '+') ::
    List.replicate (2 - size.length) '0' ++ size

def writeMagnitude (x : Binary64) : List Char :=
  if x.exponentField = 2047 then
    if x.fractionField = 0 then ['i', 'n', 'f'] else ['n', 'a', 'n']
  else if x.significand = 0 then ['0', '.', '0']
  else
    let (n, e) := x.shortest
    let all := Nat.toDigits 10 n
    let point := all.length + e
    let digits := (all.reverse.dropWhile (· = '0')).reverse
    if -4 < point && point ≤ 16 then positional digits point else scientific digits point

/-- The shortest decimal that reads back to `x`. -/
def write (x : Binary64) : String :=
  let isNumber := !(x.exponentField = 2047 && x.fractionField != 0)
  String.ofList (if x.isNegative && isNumber then '-' :: x.writeMagnitude else x.writeMagnitude)

end Binary64

end LetPrint.Text
