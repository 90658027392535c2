/-!
# The value of a number

Integers and doubles are compared by what they stand for, without rounding: a finite double is
`m · 2^q`, and so is every integer.
-/
namespace FfiHeaders

inductive Quantity
  | finite (x : Dyadic)
  | infinite (isNegative : Bool)
  /-- The value of what is not a number. -/
  | undefined
  deriving DecidableEq

namespace Quantity

def ofInt (n : Int) : Quantity := finite (.ofInt n)

/-- The finite value with exponent field `e` and fraction field `f`. -/
def ofFields (isNegative : Bool) (e f : Nat) : Quantity :=
  let m : Int := if e = 0 then f else (f + Nat.pow 2 52 : Nat)
  finite (.ofIntWithPrec (if isNegative then -m else m) (1075 - max e 1))

/-- The value of a double. Both zeros stand for one value. -/
def ofDouble (x : Float) : Quantity :=
  let bits := x.toBits.toNat
  let isNegative := bits / Nat.pow 2 63 = 1
  let e := bits / Nat.pow 2 52 % Nat.pow 2 11
  let f := bits % Nat.pow 2 52
  if e = 2047 then
    if f = 0 then infinite isNegative else undefined
  else ofFields isNegative e f

/-- Whether `a` may stand before `b`. An undefined value may stand anywhere. -/
def precedes : Quantity → Quantity → Bool
  | finite x, finite y => x ≤ y
  | infinite isNegative, finite _ => isNegative
  | finite _, infinite isNegative => !isNegative
  | infinite m, infinite n => m || !n
  | undefined, _ | _, undefined => true

example : ofFields false 1023 0 = ofInt 1 := by decide +kernel
example : ofFields true 0 0 = ofInt 0 := by decide +kernel
example : (ofFields false 1022 0).precedes (ofInt 1) := by decide +kernel

end Quantity

end FfiHeaders
