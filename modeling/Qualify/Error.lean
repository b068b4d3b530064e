import Qualify.Tree.Render
import Qualify.Text.Quoted

/-!
# Syntax errors

A `SyntaxError` is a cause together with the place it is reported at. Each
`Cause` is one way in which a source text or a declaration can be malformed;
its class, its message and the tokens that would have been accepted instead
follow from it (`Cause.kind`, `Cause.message`, `Cause.expected`).
-/

namespace Qualify

/-- What stands next at the place of an error. -/
inductive Found where
  | nothing
  | opener (delimiter : Delimiter)
  | separator
  | token (text : String)
deriving DecidableEq, Repr

namespace Found

/-- What a level starts with. The path separator is named as a whole. -/
def ofForest : Forest → Found
  | [] => nothing
  | .group delimiter _ _ :: _ => opener delimiter
  | .token value :: rest =>
    if Forest.startsWithSeparator (.token value :: rest) then separator else token value.text

/-- How a message names what it found. -/
def describe : Found → String
  | nothing => "end of input"
  | opener delimiter => "`" ++ delimiter.opener ++ "`"
  | separator => "`::`"
  | token text => "`" ++ text ++ "`"

end Found

/-- Whether a chain of segments stands directly in a declaration or inside
braces. -/
inductive Place where
  | top
  | nested
deriving DecidableEq, Repr

/-- What a separator is missing after. -/
inductive Ended where
  | renaming
  | group
deriving DecidableEq, Repr

/-- The classes of syntax errors. -/
inductive ErrorKind where
  | malformed
  | unterminated
  | misplacedAlias
  | wildcard
  | illegalSelf
  | nonNameTail
  | lexical
deriving DecidableEq, Repr

namespace ErrorKind

/-- The code a diagnostic carries for a class of errors. -/
def code : ErrorKind → String
  | malformed => "syntax"
  | unterminated => "unterminated-declaration"
  | misplacedAlias => "misplaced-alias"
  | wildcard => "wildcard-not-supported"
  | illegalSelf => "illegal-self-reference"
  | nonNameTail => "non-name-tail"
  | lexical => "lex"

/-- The part of the work an error belongs to. -/
def phase : ErrorKind → String
  | lexical => "lexer"
  | _ => "parser"

end ErrorKind

/-- The ways a source text or a declaration can be malformed. -/
inductive Cause where
  /-- No terminal matches at this character. -/
  | unexpectedCharacter (c : Char)
  /-- A closing delimiter that does not close the innermost open group. -/
  | unexpectedCloser (closer : Delimiter) (innermost : Option Delimiter)
  /-- A group that is never closed. -/
  | unclosedOpener (delimiter : Delimiter)
  /-- A declaration has to start with `use`. -/
  | missingUse (found : Found)
  /-- Something follows the only declaration. -/
  | trailing (found : Found)
  /-- A `;` inside braces. -/
  | semicolonInBraces
  /-- A declaration ends without `;`. -/
  | missingSemicolon (found : Found)
  /-- Only a separator may follow an alias or a group. -/
  | missingSeparator (ended : Ended) (place : Place) (found : Found)
  /-- `as` after a group. -/
  | renamedGroup
  /-- `::` after an alias. -/
  | aliasContinued
  /-- A glob import. -/
  | glob
  /-- A `#` at the end of a level. -/
  | missingPlaceholder
  /-- An item that starts with neither a segment nor a group. -/
  | missingSegment (found : Found)
  /-- `::` that no segment follows. -/
  | danglingSeparator (found : Found)
  /-- `self` followed by `::`. -/
  | selfContinued
  /-- `self` with nothing in front of it. -/
  | selfAlone
  /-- A path to be bound under its own name that ends in a placeholder. -/
  | placeholderTail
  /-- `as` that no name follows. -/
  | missingAlias (found : Found)
  /-- A segment followed by none of the tokens that may follow one. -/
  | unendedChain (place : Place) (found : Found)
  /-- A spanned body that starts with `=>`. -/
  | missingSpanExpression
  /-- A spanned body without `=>`. -/
  | missingSpanArrow
deriving DecidableEq, Repr

namespace Cause

/-- The class of an error. -/
def kind : Cause → ErrorKind
  | unexpectedCharacter _ | unexpectedCloser .. | unclosedOpener _ => .lexical
  | semicolonInBraces | missingSemicolon _ | missingSeparator .. | unendedChain .. => .unterminated
  | renamedGroup | aliasContinued => .misplacedAlias
  | glob => .wildcard
  | selfContinued | selfAlone => .illegalSelf
  | placeholderTail => .nonNameTail
  | missingUse _ | trailing _ | missingPlaceholder | missingSegment _ | danglingSeparator _
  | missingAlias _ | missingSpanExpression | missingSpanArrow => .malformed

/-- The tokens that would have been accepted, in the order they are listed. -/
def expected : Cause → List String
  | unexpectedCharacter _ => []
  | unexpectedCloser _ innermost => innermost.toList.map Delimiter.closer
  | unclosedOpener delimiter => [delimiter.closer]
  | missingUse _ => ["use"]
  | trailing _ => []
  | semicolonInBraces => ["ident", ",", "::", "\x7b", "\x7d"]
  | missingSemicolon _ => [";"]
  | missingSeparator _ .top _ => [";"]
  | missingSeparator _ .nested _ => [",", "\x7d"]
  | renamedGroup => []
  | aliasContinued => []
  | glob => []
  | missingPlaceholder => ["token"]
  | missingSegment _ => ["ident", "#", "\x7b"]
  | danglingSeparator _ => ["ident", "#", "\x7b"]
  | selfContinued => []
  | selfAlone => []
  | placeholderTail => ["ident"]
  | missingAlias _ => ["ident"]
  | unendedChain .top _ => [";", "as", "::"]
  | unendedChain .nested _ => [",", "as", "::", "\x7d"]
  | missingSpanExpression => ["expression"]
  | missingSpanArrow => ["=>"]

/-- Tokens in backticks, joined by `separator`. -/
def listed (separator : String) (tokens : List String) : String :=
  separator.intercalate (tokens.map fun token => "`" ++ token ++ "`")

/-- The message of an error. -/
def message : Cause → String
  | unexpectedCharacter c => "unexpected character " ++ Text.quoted c.toString
  | unexpectedCloser closer _ => "unexpected closing delimiter `" ++ closer.closer ++ "`"
  | unclosedOpener delimiter => "unclosed delimiter `" ++ delimiter.opener ++ "`"
  | missingUse found => "expected `use`, found " ++ found.describe
  | trailing found => "unexpected " ++ found.describe ++ " after declaration"
  | semicolonInBraces => "expected ident, `,`, `::` or `\x7b`, found `;` (missing `\x7d`?)"
  | missingSemicolon found => "expected `;`, found " ++ found.describe
  | missingSeparator ended place found =>
    "expected " ++ listed " or " (expected (missingSeparator ended place found)) ++
      ", found " ++ found.describe ++
      match ended with
      | .renaming => ""
      | .group => " (a group must end its path)"
  | renamedGroup => "a `\x7b...\x7d` group cannot be renamed"
  | aliasContinued => "`as` must rename the last segment of a path"
  | glob => "glob imports (`*`) are not supported"
  | missingPlaceholder => "expected a token after `#`"
  | missingSegment found => "expected ident, `#` or `\x7b`, found " ++ found.describe
  | danglingSeparator found => "expected a path segment after `::`, found " ++ found.describe
  | selfContinued => "`self` must be the last segment of a path"
  | selfAlone => "`self` needs a parent path to refer to"
  | placeholderTail => "expected ident as last path segment"
  | missingAlias found => "expected a name after `as`, found " ++ found.describe
  | unendedChain place found =>
    "expected one of: " ++ listed ", " (expected (unendedChain place found)) ++
      ", found " ++ found.describe
  | missingSpanExpression => "expected a span expression before `=>`"
  | missingSpanArrow => "expected `<span> =>` at the start of a spanned quote"

end Cause

/-- A cause and the place it is reported at. -/
structure SyntaxError where
  cause : Cause
  span : Span
deriving DecidableEq, Repr

namespace SyntaxError

/-- The class of an error. -/
def kind (error : SyntaxError) : ErrorKind := error.cause.kind

/-- The message of an error. -/
def message (error : SyntaxError) : String := error.cause.message

/-- The tokens that would have been accepted. -/
def expected (error : SyntaxError) : List String := error.cause.expected

end SyntaxError

end Qualify
