import Qualify.Template.Error

/-!
# Parts of a template

`Template.parts` cuts a template into literal characters and replacement fields.
A doubled brace stands for the brace itself. A malformed template ends in the
part that says what is wrong with it, so that faults of the fields in front of
it are met first.
-/

namespace Qualify.Template

/-- A replacement field: the argument it names, a conversion, and its layout. -/
structure Field where
  name : List Char
  conversion : Option Char := none
  spec : List Char := []
deriving DecidableEq, Repr

/-- A part of a template. -/
inductive Part where
  | literal (c : Char)
  | field (field : Field)
  | malformed (error : TemplateError)
deriving DecidableEq, Repr

/-- Where in a template a character stands. What a field has been read of is kept
last character first. -/
inductive Mode where
  | literal
  | name (name : List Char)
  /-- Inside brackets, which hide every other mark. -/
  | brackets (name : List Char)
  | conversion (name : List Char)
  | converted (name : List Char) (conversion : Char)
  | spec (name : List Char) (conversion : Option Char) (depth : Nat) (spec : List Char)
deriving DecidableEq, Repr

/-- The error of a template that ends in a mode. -/
def Mode.atEnd : Mode → List Part
  | literal => []
  | name _ | brackets _ => [.malformed .unclosedField]
  | conversion _ => [.malformed .missingConversion]
  | converted .. | spec .. => [.malformed .unclosedSpec]

/-- The parts of a template from a mode on. -/
def partsFrom : Mode → List Char → List Part
  | mode, [] => mode.atEnd
  | .literal, '\x7b' :: '\x7b' :: rest => .literal '\x7b' :: partsFrom .literal rest
  | .literal, '\x7d' :: '\x7d' :: rest => .literal '\x7d' :: partsFrom .literal rest
  | .literal, c :: rest =>
    if c = '\x7b' then
      if rest.isEmpty then [.malformed .singleOpener] else partsFrom (.name []) rest
    else if c = '\x7d' then [.malformed .singleCloser]
    else .literal c :: partsFrom .literal rest
  | .name name, c :: rest =>
    if c = '\x7b' then [.malformed .openerInName]
    else if c = '\x7d' then .field { name := name.reverse } :: partsFrom .literal rest
    else if c = ':' then partsFrom (.spec name none 0 []) rest
    else if c = '!' then partsFrom (.conversion name) rest
    else if c = '[' then partsFrom (.brackets (c :: name)) rest
    else partsFrom (.name (c :: name)) rest
  | .brackets name, c :: rest =>
    partsFrom (if c = ']' then .name (c :: name) else .brackets (c :: name)) rest
  | .conversion name, c :: rest => partsFrom (.converted name c) rest
  | .converted name conversion, c :: rest =>
    if c = '\x7d' then
      .field { name := name.reverse, conversion := some conversion } :: partsFrom .literal rest
    else if c = ':' then partsFrom (.spec name (some conversion) 0 []) rest
    else [.malformed .unfinishedConversion]
  | .spec name conversion depth spec, c :: rest =>
    if c = '\x7b' then partsFrom (.spec name conversion (depth + 1) (c :: spec)) rest
    else if c = '\x7d' then
      match depth with
      | 0 =>
        .field { name := name.reverse, conversion, spec := spec.reverse } :: partsFrom .literal rest
      | depth + 1 => partsFrom (.spec name conversion depth (c :: spec)) rest
    else partsFrom (.spec name conversion depth (c :: spec)) rest

/-- The parts of a template. -/
def parts (template : String) : List Part := partsFrom .literal template.toList

end Qualify.Template
