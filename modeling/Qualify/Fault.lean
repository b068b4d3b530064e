import Qualify.Error

/-!
# Faults

A `Fault` is a call outside the domain of an operation: an index past the end of
a level, a path without segments, a bundle that cannot be read. Reading and
expanding a body never meets one; they are reported by the operations that
callers apply to parts of a level or of a path directly, and by the command line
when an option that it needs was given no value.
-/

namespace Qualify

/-- The ways an operation can be called outside its domain. -/
inductive Fault where
  /-- An operator needs at least one mark. -/
  | emptyOperator
  /-- No tree stands at the index. -/
  | outOfRange
  /-- The index is no machine word. -/
  | oversizedIndex
  /-- A slice cannot stand still. -/
  | zeroStep
  /-- No tree is left on the level. -/
  | endOfLevel
  /-- A segment is to be taken off an empty path. -/
  | nothingToPop
  /-- The last segment of an empty path is asked for. -/
  | emptyPath
  /-- An empty path has no text. -/
  | nothingToRender
  /-- A bundle of declarations is malformed. -/
  | invalidBundle (name : String) (error : SyntaxError)
  /-- No flavor has this name. -/
  | unknownFlavor (name : String)
  /-- The flavor was asked for without a name. -/
  | missingFlavor
  /-- Features were asked for without a list of names. -/
  | missingFeatures
deriving DecidableEq, Repr

namespace Fault

/-- The message of a fault. -/
def message : Fault → String
  | emptyOperator => "string index out of range"
  | outOfRange => "tuple index out of range"
  | oversizedIndex => "cannot fit 'int' into an index-sized integer"
  | zeroStep => "slice step cannot be zero"
  | endOfLevel => "advance past the end of a token cursor"
  | nothingToPop => "path should contain at least one segment"
  | emptyPath => "path should contain a segment"
  | nothingToRender => "cannot render an empty path"
  | invalidBundle name error => "prelude bundle " ++ name ++ " should be valid: " ++ error.message
  | unknownFlavor name => Text.quoted name ++ " is not a valid QuoteFlavor"
  | missingFlavor => "[] is not a valid QuoteFlavor"
  | missingFeatures => "'list' object has no attribute 'split'"

end Fault

end Qualify
