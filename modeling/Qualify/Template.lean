import Qualify.Template.Layout
import Qualify.Template.Part

/-!
# Templates

A template is a text with replacement fields in braces. A field names an
argument by position or by key, or takes the next position when it is empty.
`Template.fill` fills the fields from left to right, so that whichever fault
comes first is reported.
-/

namespace Qualify.Template

/-! ### Arguments -/

/-- How the fields so far have named their positions. -/
inductive Numbering where
  | undecided
  | automatic (next : Nat)
  | manual
deriving DecidableEq, Repr

/-- The position or key that a field name stands for. -/
inductive Reference where
  | next
  | position (index : Nat)
  | key (name : String)
deriving DecidableEq, Repr

/-- What a field name refers to: the next position when it is empty, a position
when it is all digits, and a key otherwise. -/
def reference (name : List Char) : Except TemplateError Reference :=
  let (digits, after) := Text.decimalDigits name
  if largestNumber < Text.ofDigits digits then .error .tooManyDigits
  else if name.isEmpty then .ok .next
  else if after.isEmpty then .ok (.position (Text.ofDigits digits))
  else .ok (.key (String.ofList name))

/-- The arguments a template is filled with. Any text may be a key here; `Name.format` is
called with two keys of its own, which are never among them. -/
structure Arguments where
  positional : List Argument := []
  keyed : List (String × Argument) := []
deriving DecidableEq, Repr

namespace Arguments

/-- The argument at a position. -/
def atPosition (arguments : Arguments) (index : Nat) : Except TemplateError Argument :=
  match arguments.positional[index]? with
  | some argument => .ok argument
  | none => .error (.missingPosition index)

/-- The argument of a key. -/
def atKey (arguments : Arguments) (key : String) : Except TemplateError Argument :=
  match arguments.keyed.lookup key with
  | some argument => .ok argument
  | none => .error (.missingKey key)

/-- The argument a reference stands for, and the numbering after it. Positions are
either all named or all left out. -/
def resolve (arguments : Arguments) (numbering : Numbering) :
    Reference → Except TemplateError (Argument × Numbering)
  | .key name => (arguments.atKey name).map (·, numbering)
  | .next =>
    match numbering with
    | .undecided => (arguments.atPosition 0).map (·, .automatic 1)
    | .automatic next => (arguments.atPosition next).map (·, .automatic (next + 1))
    | .manual => .error .automaticAfterManual
  | .position index =>
    match numbering with
    | .automatic _ => .error .manualAfterAutomatic
    | _ => (arguments.atPosition index).map (·, .manual)

end Arguments

/-! ### Filling -/

/-- The text of a field, and the numbering after it. -/
def fillField (arguments : Arguments) (numbering : Numbering) (field : Field) :
    Except TemplateError (List Char × Numbering) := do
  let reference ← reference field.name
  let (argument, numbering) ← arguments.resolve numbering reference
  let converted ← convert argument field.conversion
  let layout ← readLayout converted field.spec
  let text ← layOut layout converted
  return (text, numbering)

/-- Fill the parts of a template from left to right. -/
def fillParts (arguments : Arguments) (numbering : Numbering) :
    List Part → Except TemplateError (List Char)
  | [] => .ok []
  | .literal c :: rest => (fillParts arguments numbering rest).map (c :: ·)
  | .malformed error :: _ => .error error
  | .field field :: rest =>
    match fillField arguments numbering field with
    | .error error => .error error
    | .ok (text, numbering) => (fillParts arguments numbering rest).map (text ++ ·)

/-- Fill a template with arguments. -/
def fill (template : String) (arguments : Arguments) : Except TemplateError String :=
  (fillParts arguments .undecided (parts template)).map String.ofList

end Qualify.Template
