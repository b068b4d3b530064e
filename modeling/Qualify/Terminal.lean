import Qualify.Token

/-!
# Terminals

The kinds of pieces a source text is cut into.

## Main definitions

- `Terminal.lexeme?` — the characters a terminal takes off the front of a text
- `Terminal.first?` — the first terminal that matches there, in a fixed order;
  it wins however long its match is

## Design notes

Letters and digits are those of ASCII; any other character can stand only in
comments, strings and character literals. No terminal needs to try a shorter
match but `lifetime?`, which gives up one character when a tick follows.
-/

namespace Qualify

/-- A kind of piece. -/
inductive Terminal where
  | blockComment
  | lineComment
  | number
  | rawString
  | string
  | character
  | lifetime
  | ident
  | blank
  | punct
  | opener (delimiter : Delimiter)
  | closer (delimiter : Delimiter)
deriving DecidableEq, Repr

namespace Terminal

/-! ### Character classes -/

/-- A character that a name can start with. -/
def isNameStart (c : Char) : Bool := c.isAlpha || c = '_'

/-- A character that a name can go on with. -/
def isName (c : Char) : Bool := c.isAlphanum || c = '_'

/-- A digit or the separator between digits. -/
def isDigits (c : Char) : Bool := c.isDigit || c = '_'

/-- A hexadecimal digit. -/
def isHex (c : Char) : Bool :=
  c.isDigit || ('a' ≤ c && c ≤ 'f') || ('A' ≤ c && c ≤ 'F')

/-- A character of the blank space between pieces. -/
def isBlank (c : Char) : Bool :=
  c = ' ' || c = '\t' || c = '\x0c' || c = '\r' || c = '\n'

/-- The punctuation marks. -/
def marks : List Char :=
  ['!', '#', '$', '%', '&', '*', '+', ',', '-', '.', '/', ':', ';', '<', '=', '>', '?', '@', '^',
    '|', '~']

/-! ### Comments, strings and characters -/

/-- The text up to and including the first place where `a` and `b` stand side by
side. -/
def through? (a b : Char) : List Char → Option (List Char)
  | c :: d :: rest =>
    if c = a && d = b then some [c, d] else (through? a b (d :: rest)).map (c :: ·)
  | _ => none

/-- A comment from `/*` to the next `*/`. -/
def blockComment? : List Char → Option (List Char)
  | '/' :: '*' :: rest => (through? '*' '/' rest).map fun body => '/' :: '*' :: body
  | _ => none

/-- A comment from `//` to the end of its line. -/
def lineComment? : List Char → Option (List Char)
  | '/' :: '/' :: rest => some ('/' :: '/' :: rest.takeWhile (· ≠ '\n'))
  | _ => none

/-- A recogniser that allows the byte marker `b` in front. -/
def byteMarked? (lexeme? : List Char → Option (List Char)) : List Char → Option (List Char)
  | 'b' :: rest => (lexeme? rest).map ('b' :: ·)
  | text => lexeme? text

/-- A string without escapes: `r"` to the next quote, or `r#"` to the next `"#`. -/
def rawString? : List Char → Option (List Char)
  | 'r' :: '#' :: '\x22' :: rest =>
    (through? '\x22' '#' rest).map fun body => 'r' :: '#' :: '\x22' :: body
  | 'r' :: '\x22' :: rest =>
    match rest.dropWhile (· ≠ '\x22') with
    | [] => none
    | quote :: _ => some ('r' :: '\x22' :: (rest.takeWhile (· ≠ '\x22') ++ [quote]))
  | _ => none

/-- What follows the opening quote of a string, up to and including its closing
quote. A backslash takes the next character with it. -/
def stringBody? : List Char → Option (List Char)
  | [] => none
  | '\x22' :: _ => some ['\x22']
  | '\x5c' :: c :: rest => (stringBody? rest).map fun body => '\x5c' :: c :: body
  | c :: rest => if c = '\x5c' then none else (stringBody? rest).map (c :: ·)

/-- A string with escapes. -/
def string? : List Char → Option (List Char)
  | '\x22' :: rest => (stringBody? rest).map ('\x22' :: ·)
  | _ => none

/-- The character, or the escape for one, between two ticks. -/
def characterBody? : List Char → Option (List Char)
  | '\x5c' :: 'x' :: high :: low :: _ =>
    if isHex high && isHex low then some ['\x5c', 'x', high, low] else none
  | '\x5c' :: 'u' :: '\x7b' :: rest =>
    let digits := rest.takeWhile isHex
    match rest.dropWhile isHex with
    | '\x7d' :: _ =>
      if 1 ≤ digits.length && digits.length ≤ 6 then
        some ('\x5c' :: 'u' :: '\x7b' :: (digits ++ ['\x7d']))
      else none
    | _ => none
  | '\x5c' :: c :: _ => if c = 'x' || c = 'u' then none else some ['\x5c', c]
  | c :: _ => if c = '\x27' || c = '\x5c' || c = '\n' then none else some [c]
  | [] => none

/-- A character between two ticks. -/
def character? : List Char → Option (List Char)
  | '\x27' :: rest =>
    match characterBody? rest with
    | none => none
    | some body =>
      match rest.drop body.length with
      | '\x27' :: _ => some ('\x27' :: (body ++ ['\x27']))
      | _ => none
  | _ => none

/-! ### Numbers -/

/-- The fraction of a number, empty when no digit follows the point. -/
def fraction : List Char → List Char
  | '.' :: c :: rest => if c.isDigit then '.' :: c :: rest.takeWhile isDigits else []
  | _ => []

/-- The sign of an exponent, if there is one. -/
def sign : List Char → List Char
  | c :: _ => if c = '+' || c = '-' then [c] else []
  | [] => []

/-- The exponent of a number, empty when it has no digits. -/
def exponent : List Char → List Char
  | c :: rest =>
    if c = 'e' || c = 'E' then
      let digits := (rest.drop (sign rest).length).takeWhile isDigits
      if digits.isEmpty then [] else c :: (sign rest ++ digits)
    else []
  | [] => []

/-- A number: digits, fraction, exponent and a suffix made of letters and digits. -/
def number? : List Char → Option (List Char)
  | c :: rest =>
    if c.isDigit then
      let whole := rest.takeWhile isDigits
      let afterWhole := rest.dropWhile isDigits
      let fractional := fraction afterWhole
      let afterFraction := afterWhole.drop fractional.length
      let scale := exponent afterFraction
      let suffix := (afterFraction.drop scale.length).takeWhile isName
      some (c :: (whole ++ (fractional ++ (scale ++ suffix))))
    else none
  | [] => none

/-! ### Names, marks and delimiters -/

/-- A name. -/
def name? : List Char → Option (List Char)
  | c :: rest => if isNameStart c then some (c :: rest.takeWhile isName) else none
  | [] => none

/-- A tick and a name that no second tick follows. Where the longest name is
followed by a tick, the name gives up its last character. -/
def lifetime? : List Char → Option (List Char)
  | '\x27' :: rest =>
    match name? rest with
    | none => none
    | some name =>
      match rest.drop name.length with
      | '\x27' :: _ => if name.length ≤ 1 then none else some ('\x27' :: name.dropLast)
      | _ => some ('\x27' :: name)
  | _ => none

/-- A name, or a raw name marked by `r#`. -/
def ident? : List Char → Option (List Char)
  | 'r' :: '#' :: rest =>
    match name? rest with
    | some name => some ('r' :: '#' :: name)
    | none => some ['r']
  | text => name? text

/-- A run of blank characters. -/
def blank? (text : List Char) : Option (List Char) :=
  match text.takeWhile isBlank with
  | [] => none
  | run => some run

/-- One punctuation mark. -/
def mark? : List Char → Option (List Char)
  | c :: _ => if marks.contains c then some [c] else none
  | [] => none

/-- The text `lexeme` itself. -/
def exactly? (lexeme : List Char) (text : List Char) : Option (List Char) :=
  if lexeme ≠ [] && lexeme.isPrefixOf text then some lexeme else none

/-! ### All terminals -/

/-- The characters a terminal takes off the front of a text, if it matches there. -/
def lexeme? : Terminal → List Char → Option (List Char)
  | blockComment => blockComment?
  | lineComment => lineComment?
  | number => number?
  | rawString => byteMarked? rawString?
  | string => byteMarked? string?
  | character => byteMarked? character?
  | lifetime => lifetime?
  | ident => ident?
  | blank => blank?
  | punct => mark?
  | opener delimiter => exactly? delimiter.opener.toList
  | closer delimiter => exactly? delimiter.closer.toList

/-- The order in which terminals are tried. -/
def order : List Terminal :=
  [blockComment, lineComment, number, rawString, string, character, lifetime, ident, blank, punct,
    opener .paren, closer .paren, opener .bracket, closer .bracket, opener .brace, closer .brace]

/-- The first terminal that matches at the front of a text, with its match. -/
def first? (text : List Char) : Option (Terminal × List Char) :=
  order.findSome? fun terminal => (terminal.lexeme? text).map fun lexeme => (terminal, lexeme)

/-- Whether a terminal separates tokens without being one. -/
def isTrivia : Terminal → Bool
  | blockComment | lineComment | blank => true
  | _ => false

end Terminal

end Qualify
