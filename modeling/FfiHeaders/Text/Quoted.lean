import FfiHeaders.Text.Unprintable

/-!
# Quoted text

The written form of a text inside a message: between quotes, with the quote, the backslash and the
unprintable characters escaped.
-/
namespace FfiHeaders.Text

/-- Lowercase hexadecimal digits of `n`, at least `width` of them. -/
def hexDigits (width n : Nat) : List Char :=
  let ds := Nat.toDigits 16 n
  List.replicate (width - ds.length) '0' ++ ds

/-- An unprintable character: two, four or eight digits, the fewest that hold it. -/
def escapeUnprintable (c : Char) : List Char :=
  let n := c.toNat
  if n < 0x100 then ['\\', 'x'] ++ hexDigits 2 n
  else if n < 0x10000 then ['\\', 'u'] ++ hexDigits 4 n
  else ['\\', 'U'] ++ hexDigits 8 n

def escapeChar (quote c : Char) : List Char :=
  if c = quote || c = '\\' then ['\\', c]
  else if c = '\n' then ['\\', 'n']
  else if c = '\r' then ['\\', 'r']
  else if c = '\t' then ['\\', 't']
  else if isPrintable c then [c]
  else escapeUnprintable c

/-- Single quotes, unless the text holds one of those and no double quote. -/
def chooseQuote (cs : List Char) : Char :=
  if cs.contains '\'' && !cs.contains '"' then '"' else '\''

def quotedChars (cs : List Char) : List Char :=
  let q := chooseQuote cs
  q :: cs.flatMap (escapeChar q) ++ [q]

/-- The text between quotes. -/
def quoted (s : String) : String := String.ofList (quotedChars s.toList)

example : quoted "it's" = "\"it's\"" := by decide +kernel
example : quoted "a\\\n'\"" = "'a\\\\\\n\\'\"'" := by decide +kernel
example : quoted "\u00a0\ufeff" = "'\\xa0\\ufeff'" := by decide +kernel

end FfiHeaders.Text
