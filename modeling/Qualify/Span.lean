/-!
# Source spans

A `Span` says where a token stands in its source text. Every part of it may be
unknown: tokens that were made up rather than read carry `Span.unknown`. Spans
serve diagnostics only; comparisons of trees forget them (`Tree.bare`).
`Span.ofLocation` builds a span from whatever located thing a caller has.
-/

namespace Qualify

/-- A place in a source text: file, first position, and the position just after
the last character. Lines and columns count from one. -/
structure Span where
  file : Option String := none
  line : Option Int := none
  column : Option Int := none
  endLine : Option Int := none
  endColumn : Option Int := none
deriving DecidableEq, Repr, Inhabited

namespace Span

/-- The span of something that no source text holds. -/
def unknown : Span := {}

/-- One coordinate as text, `?` when it is unknown. -/
def coordinate : Option Int → String
  | some n => toString n
  | none => "?"

/-- The first position as `line:column`. -/
def short (span : Span) : String :=
  coordinate span.line ++ ":" ++ coordinate span.column

end Span

/-- The first name of a list of possible file names that is present and not
empty. -/
def firstNonempty? (names : List (Option String)) : Option String :=
  names.findSome? fun name => name.filter (· ≠ "")

/-- What a caller may hand over as a location: nothing, a finished span, or an
object of some other reader with its own coordinates and file names. -/
inductive Location where
  | missing
  | span (span : Span)
  | foreign (file fileName : Option String) (line column endLine endColumn : Option Int)
deriving DecidableEq, Repr

namespace Location

/-- Whether a span made from this location stands for an object of another
reader. -/
def isForeign : Location → Bool
  | .foreign .. => true
  | _ => false

end Location

/-- The span of a location. A finished span is kept as it is; a foreign
location takes the first nonempty name among `file` and its own two. -/
def Span.ofLocation (file : Option String) : Location → Span
  | .missing => { file }
  | .span span => span
  | .foreign own fileName line column endLine endColumn =>
    { file := firstNonempty? [file, own, fileName], line, column, endLine, endColumn }

end Qualify
