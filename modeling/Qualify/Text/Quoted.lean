import Qualify.Text.Printable

/-!
# Quoted texts

Messages quote characters and names the way a reader can tell them apart: in
single quotes, or in double quotes when the text holds a single quote and no
double one. The quote itself, the backslash, line breaks and tabs are escaped,
and a character that is not printable is written by its code point.
-/

namespace Qualify.Text

/-- The digits of a number in lower-case hexadecimal, at least `width` many. -/
def hexadecimal (width n : Nat) : List Char :=
  let digits := Nat.toDigits 16 n
  List.replicate (width - digits.length) '0' ++ digits

/-- A code point with the shortest escape that holds it: two, four or eight
digits. -/
def escapeNumber (n : Nat) : List Char :=
  if n < 0x100 then '\x5c' :: 'x' :: hexadecimal 2 n
  else if n < 0x10000 then '\x5c' :: 'u' :: hexadecimal 4 n
  else '\x5c' :: 'U' :: hexadecimal 8 n

/-- One character inside a text quoted with `quote`. -/
def escapeQuoted (quote c : Char) : List Char :=
  if c = quote || c = '\x5c' then ['\x5c', c]
  else if c = '\n' then ['\x5c', 'n']
  else if c = '\r' then ['\x5c', 'r']
  else if c = '\t' then ['\x5c', 't']
  else if isPrintable c then [c]
  else escapeNumber c.toNat

/-- The quote a text is written in. -/
def quoteFor (text : List Char) : Char :=
  if text.contains '\x27' && !text.contains '\x22' then '\x22' else '\x27'

/-- A text in quotes. -/
def quoted (text : String) : String :=
  let chars := text.toList
  let quote := quoteFor chars
  String.ofList (quote :: (chars.flatMap (escapeQuoted quote) ++ [quote]))

end Qualify.Text
