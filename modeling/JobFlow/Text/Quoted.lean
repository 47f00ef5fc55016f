import JobFlow.Text.Digit
import JobFlow.Text.Unprintable

/-!
Quoted texts: a text between quotes in which the quote, the backslash and every character without
a glyph are escaped, so that it stays on one line. Messages show names and paths this way.
-/

set_option autoImplicit false

namespace JobFlow.Text.Quoted

/-- The last `width` hexadecimal digits of `n`, most significant first, in lower case. -/
def hexDigits : Nat → Nat → List Char
  | 0, _ => []
  | width + 1, n => hexDigits width (n / 16) ++ [Nat.digitChar (n % 16)]

/-- One character inside quotes. The three escapes by number are chosen by the size of the code
point: two, four or eight digits. -/
def escape (quote c : Char) : List Char :=
  if c = quote ∨ c = '\\' then ['\\', c]
  else if c = '\n' then ['\\', 'n']
  else if c = '\r' then ['\\', 'r']
  else if c = '\t' then ['\\', 't']
  else if isPrintable c then [c]
  else if c.toNat < 0x100 then '\\' :: 'x' :: hexDigits 2 c.toNat
  else if c.toNat < 0x10000 then '\\' :: 'u' :: hexDigits 4 c.toNat
  else '\\' :: 'U' :: hexDigits 8 c.toNat

/-- The quote around a text: a single one, unless the text holds single quotes and no double
ones. -/
def quoteFor (cs : List Char) : Char :=
  if '\'' ∈ cs ∧ '"' ∉ cs then '"' else '\''

def encode (cs : List Char) : List Char :=
  let quote := quoteFor cs
  quote :: cs.flatMap (escape quote) ++ [quote]

end Quoted

def quoted (s : String) : String :=
  String.ofList (Quoted.encode s.toList)

/-- Quoted texts in brackets, separated by commas. -/
def quotedList (texts : List String) : String :=
  "[" ++ ", ".intercalate (texts.map quoted) ++ "]"

/-- Pairs of quoted texts in braces, a colon inside each pair. -/
def quotedPairs (pairs : List (String × String)) : String :=
  "\x7b" ++ ", ".intercalate (pairs.map fun p => quoted p.1 ++ ": " ++ quoted p.2) ++ "\x7d"

end JobFlow.Text
