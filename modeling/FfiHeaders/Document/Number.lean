import FfiHeaders.Document.Value

/-!
# Numbers of a document

A number without point and exponent is an integer of any size, all others are doubles. `Numeral` is
the written form taken apart, `Numeral.value` what it stands for.
-/
namespace FfiHeaders.Document

structure Numeral where
  isNegative : Bool
  whole : List Char
  fraction : List Char
  /-- Sign and digits of the exponent. -/
  exponent : Option (Bool × List Char)
  /-- Number of characters of the written form. -/
  length : Nat

def digitsValue (ds : List Char) : Nat :=
  ds.foldl (fun n d => 10 * n + (d.toNat - '0'.toNat)) 0

/-- The digits of a whole part: a lone zero, or a run that starts with another digit. -/
def wholeDigits : List Char → List Char
  | '0' :: _ => ['0']
  | cs => cs.takeWhile Char.isDigit

/-- The digits after a point, none if no digit follows the point. -/
def fractionDigits : List Char → List Char
  | '.' :: r => r.takeWhile Char.isDigit
  | _ => []

/-- Sign, digits and length of an exponent, if a digit follows its letter and sign. -/
def exponentPart? : List Char → Option ((Bool × List Char) × Nat)
  | e :: r =>
    if e = 'e' || e = 'E' then
      let (isNegative, ds, n) := match r with
        | '-' :: r => (true, r.takeWhile Char.isDigit, 2)
        | '+' :: r => (false, r.takeWhile Char.isDigit, 2)
        | r => (false, r.takeWhile Char.isDigit, 1)
      if ds.isEmpty then none else some ((isNegative, ds), n + ds.length)
    else none
  | [] => none

/-- The longest numeral at the start of the text. -/
def Numeral.read? (cs : List Char) : Option Numeral :=
  let (isNegative, signLength) := match cs with
    | '-' :: _ => (true, 1)
    | _ => (false, 0)
  let whole := wholeDigits (cs.drop signLength)
  if whole.isEmpty then none
  else
    let n := signLength + whole.length
    let fraction := fractionDigits (cs.drop n)
    let n := if fraction.isEmpty then n else n + 1 + fraction.length
    match exponentPart? (cs.drop n) with
    | some (e, k) => some ⟨isNegative, whole, fraction, some e, n + k⟩
    | none => some ⟨isNegative, whole, fraction, none, n⟩

def infinity : Float := Float.ofBits 0x7FF0000000000000

def notANumber : Float := Float.ofBits 0x7FF8000000000000

/-- The double nearest to `mantissa * 10 ^ exponent`. Past the range of doubles no power of ten is
computed. -/
def nearestDouble (mantissa : Nat) (exponent : Int) : Float :=
  let size := (Nat.toDigits 10 mantissa).length + exponent
  if mantissa = 0 || size < -330 then Float.ofBits 0
  else if 310 < size then infinity
  else Float.ofScientific mantissa (exponent < 0) exponent.natAbs

def Numeral.isInteger (n : Numeral) : Bool := n.fraction.isEmpty && n.exponent.isNone

def Numeral.value (n : Numeral) : Value :=
  if n.isInteger then
    let k : Int := digitsValue n.whole
    .int (if n.isNegative then -k else k)
  else
    let e : Int := match n.exponent with
      | some (true, ds) => -(digitsValue ds : Int)
      | some (false, ds) => digitsValue ds
      | none => 0
    let x := nearestDouble (digitsValue (n.whole ++ n.fraction)) (e - n.fraction.length)
    .real (if n.isNegative then -x else x)

end FfiHeaders.Document
