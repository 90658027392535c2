/-!
# Bytes as text

`Utf8.decode` reads bytes as UTF-8 and names the first bytes that are no character. Each lead byte
fixes how many bytes follow and which range the next one comes from, so overlong forms, surrogates and
numbers above U+10FFFF never arise.
-/
namespace FfiHeaders.Text.Utf8

inductive Reason
  /-- A character cannot start with the byte. -/
  | start
  /-- A character that has begun cannot go on with the next byte. -/
  | continuation
  /-- The bytes end inside a character. -/
  | truncated
  deriving DecidableEq, Repr

def Reason.text : Reason → String
  | start => "invalid start byte"
  | continuation => "invalid continuation byte"
  | truncated => "unexpected end of data"

/-- Bytes that begin a character and do not finish it, at least one of them. -/
structure Undecodable where
  reason : Reason
  position : Nat
  first : UInt8
  /-- How many bytes follow the first. -/
  more : Nat
  deriving DecidableEq, Repr

/-- Two lowercase hexadecimal digits. -/
def hexByte (b : UInt8) : String :=
  let ds := Nat.toDigits 16 b.toNat
  String.ofList (List.replicate (2 - ds.length) '0' ++ ds)

def Undecodable.message (u : Undecodable) : String :=
  "'utf-8' codec can't decode " ++
    (if u.more = 0 then "byte 0x" ++ hexByte u.first ++ " in position " ++ toString u.position
    else "bytes in position " ++ toString u.position ++ "-" ++ toString (u.position + u.more)) ++
    ": " ++ u.reason.text

/-- A character of which some bytes have been read. -/
structure Pending where
  first : UInt8
  /-- How many bytes have followed the first. -/
  taken : Nat
  /-- The number read so far. -/
  code : Nat
  /-- How many bytes follow the next one. -/
  rest : Nat
  low : UInt8
  high : UInt8

/-- The character that begins with a byte outside ASCII. -/
def begin? (b : UInt8) : Option Pending :=
  let n := b.toNat
  if b < 0xC2 then none
  else if b < 0xE0 then some ⟨b, 0, n - 0xC0, 0, 0x80, 0xBF⟩
  else if b < 0xF0 then
    some ⟨b, 0, n - 0xE0, 1, if b = 0xE0 then 0xA0 else 0x80, if b = 0xED then 0x9F else 0xBF⟩
  else if b < 0xF5 then
    some ⟨b, 0, n - 0xF0, 2, if b = 0xF0 then 0x90 else 0x80, if b = 0xF4 then 0x8F else 0xBF⟩
  else none

/-- Where a decoder stands: before the byte at `position`, with the finished characters, last first,
and the one that has begun. -/
structure Decoder where
  position : Nat
  chars : List Char
  pending : Option Pending

def Pending.fault (p : Pending) (reason : Reason) (position : Nat) : Undecodable :=
  ⟨reason, position - 1 - p.taken, p.first, p.taken⟩

namespace Decoder

def initial : Decoder := ⟨0, [], none⟩

def finishChar (d : Decoder) (code : Nat) : Decoder :=
  ⟨d.position + 1, Char.ofNat code :: d.chars, none⟩

def step (d : Decoder) (b : UInt8) : Except Undecodable Decoder :=
  match d.pending with
  | none =>
    if b < 0x80 then .ok (d.finishChar b.toNat)
    else
      match begin? b with
      | some p => .ok { d with position := d.position + 1, pending := some p }
      | none => .error ⟨.start, d.position, b, 0⟩
  | some p =>
    if b < p.low || p.high < b then .error (p.fault .continuation d.position)
    else
      let code := p.code * 64 + (b.toNat - 0x80)
      match p.rest with
      | 0 => .ok (d.finishChar code)
      | rest + 1 =>
        .ok { d with
          position := d.position + 1
          pending := some ⟨p.first, p.taken + 1, code, rest, 0x80, 0xBF⟩ }

def finish (d : Decoder) : Except Undecodable (List Char) :=
  match d.pending with
  | none => .ok d.chars.reverse
  | some p => .error (p.fault .truncated d.position)

end Decoder

def decode (bs : List UInt8) : Except Undecodable (List Char) := do
  (← bs.foldlM Decoder.step .initial).finish

example : (decode [0x61, 0xC3, 0xA9, 0xE2, 0x82, 0xAC]).toOption = some ['a', 'é', '€'] := by decide
example : (decode [0xF0, 0x9F, 0x98, 0x80]).toOption = some ['😀'] := by decide

end FfiHeaders.Text.Utf8
