import Qualify.Span

/-!
# Tokens

The leaves of a token tree. An identifier, a punctuation mark and a literal are
kept as the text they were written with; a punctuation mark also remembers
whether the next mark follows without a gap, which tells `::` from `: :`.
-/

namespace Qualify

/-- Whether the next mark follows a punctuation mark without a gap. -/
inductive Spacing where
  | alone
  | joint
deriving DecidableEq, Repr, Inhabited

/-- How a group is enclosed. An `invisible` group has no text of its own. -/
inductive Delimiter where
  | paren
  | brace
  | bracket
  | invisible
deriving DecidableEq, Repr, Inhabited

namespace Delimiter

/-- The text that opens a group. -/
def opener : Delimiter → String
  | paren => "("
  | brace => "\x7b"
  | bracket => "["
  | invisible => ""

/-- The text that closes a group. -/
def closer : Delimiter → String
  | paren => ")"
  | brace => "\x7d"
  | bracket => "]"
  | invisible => ""

end Delimiter

/-- A name, or the name of a lifetime after its tick. -/
structure Ident where
  text : String
  span : Span := {}
deriving DecidableEq, Repr, Inhabited

/-- A punctuation mark, one character unless it was made up by hand. -/
structure Punct where
  text : String
  spacing : Spacing := .alone
  span : Span := {}
deriving DecidableEq, Repr, Inhabited

/-- A string, character or number, kept as its source text. -/
structure Literal where
  text : String
  span : Span := {}
deriving DecidableEq, Repr, Inhabited

/-- A leaf of a token tree. -/
inductive Token where
  | ident (value : Ident)
  | punct (value : Punct)
  | literal (value : Literal)
deriving DecidableEq, Repr

namespace Token

/-- The text a token is written with. -/
def text : Token → String
  | ident value => value.text
  | punct value => value.text
  | literal value => value.text

/-- Where a token stands. -/
def span : Token → Span
  | ident value => value.span
  | punct value => value.span
  | literal value => value.span

/-- Whether a token is a mark that the next mark follows without a gap. -/
def isJoint : Token → Bool
  | punct value => value.spacing = .joint
  | _ => false

/-- A token without its place. -/
def bare : Token → Token
  | ident value => ident { value with span := {} }
  | punct value => punct { value with span := {} }
  | literal value => literal { value with span := {} }

end Token

end Qualify
