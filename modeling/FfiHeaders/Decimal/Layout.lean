import FfiHeaders.Decimal.Shortest

/-!
# Written form of a double

`Layout` holds the choices that a written number leaves open, and `general` is the layout of all
numbers in messages and names.
-/
namespace FfiHeaders.Decimal

/-- Numbers whose first digit stands at an exponent from `leastPositional` up to, but without,
`leastScientific` are written positionally. -/
structure Layout where
  leastPositional : Int
  leastScientific : Int
  /-- Least number of digits of a written exponent. -/
  exponentDigits : Nat

def general : Layout := ⟨-4, 16, 2⟩

/-- Digits with a point after the first `whole` of them, and a zero where a side has none. -/
def positional (ds : List Char) (whole : Int) : List Char :=
  if whole ≤ 0 then '0' :: '.' :: (List.replicate (-whole).toNat '0' ++ ds)
  else
    let n := whole.toNat
    let fraction := ds.drop n
    ds.take n ++ List.replicate (n - ds.length) '0' ++
      '.' :: (if fraction.isEmpty then ['0'] else fraction)

def scientific (l : Layout) (ds : List Char) (exponent : Int) : List Char :=
  let es := Nat.toDigits 10 exponent.natAbs
  let mantissa := match ds with
    | d :: r :: rs => d :: '.' :: r :: rs
    | ds => ds
  mantissa ++ 'e' :: (if exponent < 0 then '-' else '+') ::
    (List.replicate (l.exponentDigits - es.length) '0' ++ es)

def Layout.chars (l : Layout) (s : Scientific) : List Char :=
  let ds := Nat.toDigits 10 s.digits
  if l.leastPositional ≤ s.exponent && s.exponent < l.leastScientific then
    positional ds (s.exponent + 1)
  else scientific l ds s.exponent

/-- The text of any double: the fewest digits that read back, `nan`, or `inf` with its sign. -/
def Layout.text (l : Layout) (x : Float) : String :=
  let bits := x.toBits.toNat
  let e := bits / Nat.pow 2 52 % Nat.pow 2 11
  let f := bits % Nat.pow 2 52
  let sign := if bits / Nat.pow 2 63 = 1 then "-" else ""
  if e = 2047 then
    if f = 0 then sign ++ "inf" else "nan"
  else if e = 0 && f = 0 then sign ++ "0.0"
  else sign ++ String.ofList (l.chars (Interval.ofFields e f).shortest)

example : general.chars ⟨12345675, 6⟩ = "1234567.5".toList := by decide
example : general.chars ⟨1, 0⟩ = "1.0".toList := by decide
example : general.chars ⟨1, -4⟩ = "0.0001".toList := by decide
example : general.chars ⟨15, -5⟩ = "1.5e-05".toList := by decide
example : general.chars ⟨1, 16⟩ = "1e+16".toList := by decide

end FfiHeaders.Decimal
