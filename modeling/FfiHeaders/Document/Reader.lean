import FfiHeaders.Document.Number

/-!
# Reading a document

`Document.read` turns text into a `Value`. Text that is no document is refused with the fault found
and the place where it stands. Each step returns what is left of the text together with a proof that
it is shorter, which is why reading ends.
-/
namespace FfiHeaders.Document

/-- What is wrong with a text that is no document. -/
inductive Fault
  | value
  | propertyName
  | colon
  | comma
  | extraData
  | unterminatedString
  | controlCharacter
  | escape
  | unicodeEscape
  | byteOrderMark
  deriving DecidableEq, Repr

def Fault.message : Fault → String
  | value => "Expecting value"
  | propertyName => "Expecting property name enclosed in double quotes"
  | colon => "Expecting ':' delimiter"
  | comma => "Expecting ',' delimiter"
  | extraData => "Extra data"
  | unterminatedString => "Unterminated string starting at"
  | controlCharacter => "Invalid control character at"
  | escape => "Invalid \\escape"
  | unicodeEscape => "Invalid \\uXXXX escape"
  | byteOrderMark => "Unexpected UTF-8 BOM (decode using utf-8-sig)"

/-- A fault and its place: lines and columns count from one, `offset` counts characters from zero. -/
structure Malformed where
  fault : Fault
  line : Nat
  column : Nat
  offset : Nat
  deriving DecidableEq, Repr

/-- The place of a fault before which the characters `before` stand. -/
def Malformed.after (fault : Fault) (before : List Char) : Malformed where
  fault
  line := before.count '\n' + 1
  column := (before.reverse.takeWhile (· != '\n')).length + 1
  offset := before.length

def Malformed.message (m : Malformed) : String :=
  m.fault.message ++ ": line " ++ toString m.line ++ " column " ++ toString m.column ++
    " (char " ++ toString m.offset ++ ")"

/-- A fault with the number of characters from its place to the end. -/
abbrev Stop := Fault × Nat

/-- What is left after reading something of `cs`. -/
abbrev Rest (cs : List Char) := { r : List Char // r.length < cs.length }

def isSpace (c : Char) : Bool := c = ' ' || c = '\t' || c = '\n' || c = '\r'

def skipSpace (cs : List Char) : List Char := cs.dropWhile isSpace

theorem length_skipSpace_le (cs : List Char) : (skipSpace cs).length ≤ cs.length :=
  (List.dropWhile_suffix isSpace).length_le

def hexValue? (c : Char) : Option Nat :=
  if c.isDigit then some (c.toNat - '0'.toNat)
  else if 'a' ≤ c && c ≤ 'f' then some (c.toNat - 'a'.toNat + 10)
  else if 'A' ≤ c && c ≤ 'F' then some (c.toNat - 'A'.toNat + 10)
  else none

/-- The value of the four hexadecimal digits at the start of a text that does not end there. -/
def hex4? : List Char → Option Nat
  | a :: b :: c :: d :: _ :: _ => do
    let a ← hexValue? a
    let b ← hexValue? b
    let c ← hexValue? c
    let d ← hexValue? d
    return ((a * 16 + b) * 16 + c) * 16 + d
  | _ => none

def simpleEscape? : Char → Option Char
  | '"' => some '"'
  | '\\' => some '\\'
  | '/' => some '/'
  | 'b' => some '\x08'
  | 'f' => some '\x0c'
  | 'n' => some '\n'
  | 'r' => some '\r'
  | 't' => some '\t'
  | _ => none

/-- The character of a code unit; half a surrogate pair becomes the replacement character. -/
def unitChar (n : Nat) : Char :=
  if 0xD800 ≤ n && n < 0xE000 then '\ufffd' else Char.ofNat n

/-- The character written by the escape whose digits start `cs`, and how many characters of `cs` it
takes: four, or ten where two escapes form a surrogate pair. -/
def unicodeEscape (cs : List Char) : Except Stop (Char × Nat) :=
  match hex4? cs with
  | none => .error (.unicodeEscape, cs.length + 1)
  | some n =>
    match cs.drop 4 with
    | '\\' :: 'u' :: r =>
      if 0xD800 ≤ n && n < 0xDC00 && 5 ≤ r.length then
        match hex4? r with
        | none => .error (.unicodeEscape, r.length + 1)
        | some k =>
          if 0xDC00 ≤ k && k < 0xE000 then
            .ok (Char.ofNat (0x10000 + (n - 0xD800) * 0x400 + (k - 0xDC00)), 10)
          else .ok (unitChar n, 4)
      else .ok (unitChar n, 4)
    | _ => .ok (unitChar n, 4)

/-- The rest of a string up to its closing quote. `opening` counts the characters from the opening
quote on, `read` holds the characters so far in reverse. -/
def stringTail (opening : Nat) (read cs : List Char) : Except Stop (String × Rest cs) :=
  match cs with
  | [] => .error (.unterminatedString, opening)
  | '"' :: r => .ok (String.ofList read.reverse, ⟨r, by simp⟩)
  | '\\' :: 'u' :: r => do
    let (c, n) ← unicodeEscape r
    let (s, ⟨r', h⟩) ← stringTail opening (c :: read) (r.drop n)
    return (s, ⟨r', by simp at h ⊢; omega⟩)
  | '\\' :: e :: r =>
    match simpleEscape? e with
    | none => .error (.escape, r.length + 2)
    | some c => do
      let (s, ⟨r', h⟩) ← stringTail opening (c :: read) r
      return (s, ⟨r', by simp; omega⟩)
  | ['\\'] => .error (.unterminatedString, opening)
  | c :: r =>
    if c.toNat < 0x20 then .error (.controlCharacter, r.length + 1)
    else do
      let (s, ⟨r', h⟩) ← stringTail opening (c :: read) r
      return (s, ⟨r', by simp; omega⟩)
termination_by cs.length

/-- A repeated key keeps its first place and takes the last value. -/
def putMember (members : List (String × Value)) (key : String) (v : Value) :
    List (String × Value) :=
  match members with
  | [] => [(key, v)]
  | m :: ms => if m.1 = key then (key, v) :: ms else m :: putMember ms key v

def objectOf (pairs : List (String × Value)) : Value :=
  .object (pairs.foldl (fun ms p => putMember ms p.1 p.2) [])

mutual

/-- One value at the start of the text, where no space is skipped. -/
def value (cs : List Char) : Except Stop (Value × Rest cs) :=
  match cs with
  | '"' :: r => do
    let (s, ⟨r', h⟩) ← stringTail (r.length + 1) [] r
    return (.text s, ⟨r', by simp; omega⟩)
  | '\x7b' :: r =>
    match h : skipSpace r with
    | '\x7d' :: r' => .ok (.object [], ⟨r', by
        have := length_skipSpace_le r; simp [h] at this ⊢; omega⟩)
    | r' => do
      let (ms, ⟨r'', h'⟩) ← members r'
      return (objectOf ms, ⟨r'', by have := length_skipSpace_le r; simp [h] at this ⊢; omega⟩)
  | '[' :: r =>
    match h : skipSpace r with
    | ']' :: r' => .ok (.list [], ⟨r', by
        have := length_skipSpace_le r; simp [h] at this ⊢; omega⟩)
    | r' => do
      let (vs, ⟨r'', h'⟩) ← items r'
      return (.list vs, ⟨r'', by have := length_skipSpace_le r; simp [h] at this ⊢; omega⟩)
  | 'n' :: 'u' :: 'l' :: 'l' :: r => .ok (.null, ⟨r, by simp; omega⟩)
  | 't' :: 'r' :: 'u' :: 'e' :: r => .ok (.bool true, ⟨r, by simp; omega⟩)
  | 'f' :: 'a' :: 'l' :: 's' :: 'e' :: r => .ok (.bool false, ⟨r, by simp; omega⟩)
  | 'N' :: 'a' :: 'N' :: r => .ok (.real notANumber, ⟨r, by simp; omega⟩)
  | 'I' :: 'n' :: 'f' :: 'i' :: 'n' :: 'i' :: 't' :: 'y' :: r =>
    .ok (.real infinity, ⟨r, by simp; omega⟩)
  | '-' :: 'I' :: 'n' :: 'f' :: 'i' :: 'n' :: 'i' :: 't' :: 'y' :: r =>
    .ok (.real (-infinity), ⟨r, by simp; omega⟩)
  | c :: r =>
    match Numeral.read? (c :: r) with
    | some n =>
      .ok (n.value, ⟨r.drop (n.length - 1), by simp only [List.length_drop, List.length_cons]; omega⟩)
    | none => .error (.value, r.length + 1)
  | [] => .error (.value, 0)
termination_by 2 * cs.length
decreasing_by
  all_goals
    have := length_skipSpace_le r
    simp [h] at this ⊢
    omega

/-- The values of a list from its first one to its closing bracket. -/
def items (cs : List Char) : Except Stop (List Value × Rest cs) := do
  let (v, ⟨r, h⟩) ← value cs
  match hr : skipSpace r with
  | ']' :: r' => return ([v], ⟨r', by
      have := length_skipSpace_le r; simp [hr] at this ⊢; omega⟩)
  | ',' :: r' =>
    let (vs, ⟨r'', h'⟩) ← items (skipSpace r')
    return (v :: vs, ⟨r'', by
      have := length_skipSpace_le r; have := length_skipSpace_le r'; simp [hr] at *; omega⟩)
  | r' => .error (.comma, r'.length)
termination_by 2 * cs.length + 1
decreasing_by
  · omega
  · have := length_skipSpace_le r
    have := length_skipSpace_le r'
    simp [hr] at *
    omega

/-- The members of an object from its first key to its closing brace. -/
def members (cs : List Char) : Except Stop (List (String × Value) × Rest cs) :=
  match cs with
  | '"' :: k => do
    let (key, ⟨r, hk⟩) ← stringTail (k.length + 1) [] k
    match hr : skipSpace r with
    | ':' :: r' =>
      let (v, ⟨s, hs⟩) ← value (skipSpace r')
      match hs' : skipSpace s with
      | '\x7d' :: s' => return ([(key, v)], ⟨s', by
          have := length_skipSpace_le r; have := length_skipSpace_le r'
          have := length_skipSpace_le s; simp [hr, hs'] at *; omega⟩)
      | ',' :: s' =>
        let (ms, ⟨s'', h⟩) ← members (skipSpace s')
        return ((key, v) :: ms, ⟨s'', by
          have := length_skipSpace_le r; have := length_skipSpace_le r'
          have := length_skipSpace_le s; have := length_skipSpace_le s'
          simp [hr, hs'] at *; omega⟩)
      | s' => .error (.comma, s'.length)
    | r' => .error (.colon, r'.length)
  | cs => .error (.propertyName, cs.length)
termination_by 2 * cs.length + 1
decreasing_by
  · have := length_skipSpace_le r
    have := length_skipSpace_le r'
    simp [hr] at *
    omega
  · have := length_skipSpace_le r
    have := length_skipSpace_le r'
    have := length_skipSpace_le s
    have := length_skipSpace_le s'
    simp [hr, hs'] at *
    omega

end

/-- One value with space around it. -/
def document (cs : List Char) : Except Stop Value :=
  match cs with
  | '\ufeff' :: _ => .error (.byteOrderMark, cs.length)
  | _ => do
    let (v, ⟨r, _⟩) ← value (skipSpace cs)
    let r := skipSpace r
    if r.isEmpty then return v else .error (.extraData, r.length)

/-- The document that a text writes. -/
def read (s : String) : Except Malformed Value :=
  let cs := s.toList
  match document cs with
  | .ok v => .ok v
  | .error (fault, left) => .error (.after fault (cs.take (cs.length - left)))

end FfiHeaders.Document
