import Qualify.Error
import Qualify.Text.Json

/-!
# Diagnostics

A `Diagnostic` is what a user is shown: a message with its place, severity and
notes. `Diagnostic.format` writes it for a terminal and `Diagnostic.toJson` for
a tool. A diagnostic whose span names no file is reported against the file the
caller is working on.
-/

namespace Qualify

/-- A message for the user. -/
structure Diagnostic where
  message : String
  code : Option String := none
  phase : Option String := none
  severity : String := "error"
  span : Span := {}
  notes : List String := []
deriving DecidableEq, Repr

namespace Diagnostic

/-- The diagnostic as a JSON object. A span without a file name takes
`defaultFile`, whatever that is. -/
def toJson (defaultFile : Option String) (diagnostic : Diagnostic) : Text.Json :=
  let optional (value : Option String) : Text.Json := (value.map .text).getD .null
  let coordinate (value : Option Int) : Text.Json := (value.map .number).getD .null
  .object [
    ("phase", optional diagnostic.phase),
    ("code", optional diagnostic.code),
    ("message", .text diagnostic.message),
    ("severity", .text diagnostic.severity),
    ("file", optional (firstNonempty? [diagnostic.span.file] <|> defaultFile)),
    ("line", coordinate diagnostic.span.line),
    ("column", coordinate diagnostic.span.column),
    ("notes", .array (diagnostic.notes.map .text))]

/-- The diagnostic as `file:line:column: severity: message`, with its notes
indented below. -/
def format (defaultFile : Option String) (diagnostic : Diagnostic) : String :=
  let file := (firstNonempty? [diagnostic.span.file, defaultFile]).getD "<input>"
  let headline :=
    file ++ ":" ++ diagnostic.span.short ++ ": " ++ diagnostic.severity ++ ": " ++
      diagnostic.message
  "\n".intercalate (headline :: diagnostic.notes.map ("  note: " ++ ·))

end Diagnostic

/-- The diagnostic of a syntax error. The tokens that would have been accepted
become a note. -/
def SyntaxError.toDiagnostic (error : SyntaxError) : Diagnostic where
  message := error.message
  code := some error.kind.code
  phase := some error.kind.phase
  span := error.span
  notes :=
    match error.expected with
    | [] => []
    | expected => ["expected one of: " ++ Cause.listed ", " expected]

end Qualify
