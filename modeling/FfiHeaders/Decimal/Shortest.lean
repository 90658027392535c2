/-!
# Shortest decimal digits of a binary number

A finite double is `m · 2^q`. The decimals that read back as it fill an interval around it, closed
exactly when `m` is even. On the grid of `n`-digit decimals only the value's two neighbours need a
look, because if a point of the grid lies in the interval, so does one of them. `shortest` takes the
first grid, for `n` from 1 to 17, with a hit, and of two hits the nearer.
-/
namespace FfiHeaders.Decimal

/-- A positive decimal: the digits of `digits` with the first of them at `10 ^ exponent`. -/
structure Scientific where
  digits : Nat
  exponent : Int
  deriving DecidableEq, Repr

/-- A positive rational with the ends of the interval that rounds to it, over one denominator. -/
structure Interval where
  low : Nat
  value : Nat
  high : Nat
  denominator : Nat
  isClosed : Bool

/-- The interval of the finite double with exponent field `e` and fraction field `f`. -/
def Interval.ofFields (e f : Nat) : Interval :=
  let m := if e = 0 then f else f + Nat.pow 2 52
  let lowGap := if f = 0 && 1 < e then 1 else 2
  -- a quarter of the unit in the last place is 2 ^ (max e 1 - 1077)
  let scale := Nat.pow 2 (max e 1 - 1077)
  ⟨(4 * m - lowGap) * scale, 4 * m * scale, (4 * m + 2) * scale, Nat.pow 2 (1077 - max e 1),
    m % 2 = 0⟩

def Interval.contains (i : Interval) (num : Nat) : Bool :=
  if i.isClosed then i.low ≤ num && num ≤ i.high else i.low < num && num < i.high

/-- The exponent of the first decimal digit of `num / den`. -/
def magnitude (num den : Nat) : Int :=
  if den ≤ num then (Nat.toDigits 10 (num / den)).length - 1
  else
    let l := (Nat.toDigits 10 (den / num)).length
    if den ≤ num * Nat.pow 10 (l - 1) then -(l - 1 : Nat) else -l

/-- The interval in units of `10 ^ u`. -/
def Interval.inUnits (i : Interval) (u : Int) : Interval :=
  let up := Nat.pow 10 (-u).toNat
  ⟨i.low * up, i.value * up, i.high * up, i.denominator * Nat.pow 10 u.toNat, i.isClosed⟩

/-- The nearer of the two grid neighbours that lie in the interval; a tie goes to the even one. -/
def Interval.nearest? (i : Interval) : Option Nat :=
  let below := i.value / i.denominator
  let above := below + 1
  let down := i.value - below * i.denominator
  let up := above * i.denominator - i.value
  match i.contains (below * i.denominator), i.contains (above * i.denominator) with
  | true, true => some (if down < up || (down = up && below % 2 = 0) then below else above)
  | true, false => some below
  | false, true => some above
  | false, false => none

/-- Trailing zeros are dropped; `fuel` bounds their number. -/
def dropZeros (fuel n : Nat) : Nat :=
  match fuel with
  | 0 => n
  | fuel + 1 => if n % 10 = 0 then dropZeros fuel (n / 10) else n

/-- The shortest decimal in the interval. -/
def Interval.shortest (i : Interval) : Scientific :=
  let k := magnitude i.value i.denominator
  let hit := (List.range 17).findSome? fun (n : Nat) =>
    ((i.inUnits (k - n)).nearest?).map fun d => (d, k - n)
  let (d, u) := hit.getD (0, 0)
  ⟨dropZeros 17 d, (Nat.toDigits 10 d).length - 1 + u⟩

end FfiHeaders.Decimal
