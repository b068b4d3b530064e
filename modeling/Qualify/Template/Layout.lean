import Qualify.Template.Error
import Qualify.Text.Decimal

/-!
# Layout of arguments

How an argument is written into its field: fill and alignment, width, precision,
and the base of an integer. Texts go to the left of their field and numbers to
the right unless the field says otherwise.
-/

namespace Qualify.Template

/-- The largest number that a position, a width or a precision may be. -/
def largestNumber : Nat := 0x7fffffffffffffff

/-- Where padding goes. `afterSign` puts it between the sign of a number and its
digits. -/
inductive Alignment where
  | left
  | right
  | center
  | afterSign
deriving DecidableEq, Repr

/-- The alignment a mark stands for. -/
def Alignment.ofChar? (c : Char) : Option Alignment :=
  if c = '<' then some .left
  else if c = '>' then some .right
  else if c = '^' then some .center
  else if c = '=' then some .afterSign
  else none

/-- How a value is laid out. -/
structure Layout where
  fill : Char := ' '
  alignment : Option Alignment := none
  width : Nat := 0
  precision : Option Nat := none
  code : Option Char := none
deriving DecidableEq, Repr

/-- The alignment at the front of a layout, with its fill character if it has one,
and what follows. -/
def readAlignment : List Char → Option Char × Option Alignment × List Char
  | c :: d :: rest =>
    match Alignment.ofChar? d with
    | some alignment => (some c, some alignment, rest)
    | none =>
      match Alignment.ofChar? c with
      | some alignment => (none, some alignment, d :: rest)
      | none => (none, none, c :: d :: rest)
  | [c] =>
    match Alignment.ofChar? c with
    | some alignment => (none, some alignment, [])
    | none => (none, none, [c])
  | [] => (none, none, [])

/-- A number at the front of a layout, if there is one, and what follows. -/
def readNumber (spec : List Char) : Except TemplateError (Option Nat × List Char) :=
  let (digits, after) := Text.decimalDigits spec
  if largestNumber < Text.ofDigits digits then .error .tooManyDigits
  else .ok (if digits.isEmpty then none else some (Text.ofDigits digits), after)

/-- The precision at the front of a layout, and what follows. -/
def readPrecision : List Char → Except TemplateError (Option Nat × List Char)
  | '.' :: rest =>
    match readNumber rest with
    | .error error => .error error
    | .ok (none, _) => .error .missingPrecision
    | .ok (some precision, after) => .ok (some precision, after)
  | spec => .ok (none, spec)

/-- Read the layout of a field for an argument. A zero in front of the width, where
no fill character is given, fills with zeros, for a number after its sign. -/
def readLayout (argument : Argument) (spec : List Char) : Except TemplateError Layout :=
  let (fill, alignment, afterAlignment) := readAlignment spec
  let zeros := fill.isNone && afterAlignment.head? = some '0'
  let afterZero := if zeros then afterAlignment.drop 1 else afterAlignment
  let alignment :=
    match zeros, alignment, argument with
    | true, none, .integer _ => some Alignment.afterSign
    | _, _, _ => alignment
  match readNumber afterZero with
  | .error error => .error error
  | .ok (width, afterWidth) =>
    match readPrecision afterWidth with
    | .error error => .error error
    | .ok (precision, code) =>
      if 1 < code.length then .error (.invalidSpec (String.ofList spec) argument)
      else
        .ok {
          fill := fill.getD (if zeros then '0' else ' ')
          alignment
          width := width.getD 0
          precision
          code := code.head? }

/-- A body of `sign` and `digits`, padded to the width of a layout. An odd padding
of a centred text puts the longer part after it. -/
def pad (layout : Layout) (alignment : Alignment) (sign digits : List Char) : List Char :=
  let missing := layout.width - (sign.length + digits.length)
  let padding (count : Nat) : List Char := List.replicate count layout.fill
  match alignment with
  | .left => sign ++ (digits ++ padding missing)
  | .right => padding missing ++ (sign ++ digits)
  | .center => padding (missing / 2) ++ (sign ++ (digits ++ padding (missing - missing / 2)))
  | .afterSign => sign ++ (padding missing ++ digits)

/-- The digits of an absolute value in the base that a code stands for. -/
def digitsIn? (code : Option Char) (value : Nat) : Option (List Char) :=
  match code with
  | none | some 'd' => some (Nat.toDigits 10 value)
  | some 'x' => some (Nat.toDigits 16 value)
  | some 'X' => some ((Nat.toDigits 16 value).map Char.toUpper)
  | some 'o' => some (Nat.toDigits 8 value)
  | some 'b' => some (Nat.toDigits 2 value)
  | some _ => none

/-- An argument as text. -/
def layOut (layout : Layout) : Argument → Except TemplateError (List Char)
  | .text value =>
    if layout.code.all (· = 's') then
      if layout.alignment = some .afterSign then .error .signAlignmentOnText
      else
        let shown := (layout.precision.map value.toList.take).getD value.toList
        .ok (pad layout (layout.alignment.getD .left) [] shown)
    else .error (.unknownCode (layout.code.getD 's') (.text value))
  | .integer value =>
    match digitsIn? layout.code value.natAbs with
    | none => .error (.unknownCode (layout.code.getD 'd') (.integer value))
    | some digits =>
      if layout.precision.isSome then .error .precisionOnInteger
      else
        let sign := if value < 0 then ['-'] else []
        .ok (pad layout (layout.alignment.getD .right) sign digits)

/-- An argument after the conversion of its field: `s` makes it a text. -/
def convert (argument : Argument) : Option Char → Except TemplateError Argument
  | none => .ok argument
  | some 's' =>
    match argument with
    | .text value => .ok (.text value)
    | .integer value => .ok (.text (toString value))
  | some c => .error (.unknownConversion c)

end Qualify.Template
