import Qualify.Text.Quoted

/-!
# Template errors

The arguments a template is filled with, and the ways a template can be
malformed or cannot be filled.
-/

namespace Qualify

/-- A value for a field. -/
inductive Argument where
  | text (value : String)
  | integer (value : Int)
deriving DecidableEq, Repr

/-- The ways a template can be malformed or cannot be filled. -/
inductive TemplateError where
  | singleOpener
  | singleCloser
  | unclosedField
  | openerInName
  | missingConversion
  | unfinishedConversion
  | unclosedSpec
  | unknownConversion (c : Char)
  | tooManyDigits
  | manualAfterAutomatic
  | automaticAfterManual
  | missingPosition (index : Nat)
  | missingKey (key : String)
  | invalidSpec (spec : String) (argument : Argument)
  | missingPrecision
  | precisionOnInteger
  | signAlignmentOnText
  | unknownCode (code : Char) (argument : Argument)
deriving DecidableEq, Repr

/-- The type of an argument as messages name it. -/
def Argument.typeName : Argument → String
  | text _ => "str"
  | integer _ => "int"

namespace TemplateError

/-- A character as messages name it: itself, or its number if it is not a visible
character of ASCII up to `last`. -/
def visible (last : Nat) (c : Char) : String :=
  if 32 < c.toNat && c.toNat ≤ last then c.toString
  else "\\x" ++ String.ofList (Nat.toDigits 16 c.toNat)

/-- The message of a template error. -/
def message : TemplateError → String
  | singleOpener => "Single '\x7b' encountered in format string"
  | singleCloser => "Single '\x7d' encountered in format string"
  | unclosedField => "expected '\x7d' before end of string"
  | openerInName => "unexpected '\x7b' in field name"
  | missingConversion => "end of string while looking for conversion specifier"
  | unfinishedConversion => "expected ':' after conversion specifier"
  | unclosedSpec => "unmatched '\x7b' in format spec"
  | unknownConversion c => "Unknown conversion specifier " ++ visible 126 c
  | tooManyDigits => "Too many decimal digits in format string"
  | manualAfterAutomatic =>
    "cannot switch from automatic field numbering to manual field specification"
  | automaticAfterManual =>
    "cannot switch from manual field specification to automatic field numbering"
  | missingPosition index =>
    "Replacement index " ++ toString index ++ " out of range for positional args tuple"
  | missingKey key => Text.quoted key
  | invalidSpec spec argument =>
    "Invalid format specifier '" ++ spec ++ "' for object of type '" ++ argument.typeName ++ "'"
  | missingPrecision => "Format specifier missing precision"
  | precisionOnInteger => "Precision not allowed in integer format specifier"
  | signAlignmentOnText => "'=' alignment not allowed in string format specifier"
  | unknownCode code argument =>
    "Unknown format code '" ++ visible 127 code ++ "' for object of type '" ++
      argument.typeName ++ "'"

end TemplateError

end Qualify
