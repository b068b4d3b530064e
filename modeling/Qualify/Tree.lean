import Qualify.Token

/-!
# Token trees

A `Tree` is a token or a delimited group of trees, and a `Forest` is a level:
the trees that stand side by side.

## Main definitions

- `Forest.events` — the flat view of a forest, in which a group is an opening and
  a closing event around its contents; the renderer and the qualifier are single
  passes over it
- `Forest.bare` — a forest without any span; two forests are the same when their
  bare forms are equal
- `Tree.isPunct`, `Tree.isIdent`, `Forest.startsWith` — the tests that readers of
  a level make on the trees in front of them
-/

namespace Qualify

/-- A token, or a group with the span of its opening delimiter. -/
inductive Tree where
  | token (value : Token)
  | group (delimiter : Delimiter) (inner : List Tree) (span : Span)
deriving Repr, Inhabited

/-- One level of trees. -/
abbrev Forest := List Tree

mutual

/-- Equality of trees is decidable. -/
def Tree.decEq : (a b : Tree) → Decidable (a = b)
  | .token s, .token t => decidable_of_iff (s = t) (by simp)
  | .token _, .group .. => isFalse nofun
  | .group .., .token _ => isFalse nofun
  | .group d inner span, .group e other place =>
    match Forest.decEq inner other with
    | isTrue h => decidable_of_iff (d = e ∧ span = place) (by simp [h])
    | isFalse h => isFalse fun equal => h (Tree.group.inj equal).2.1

/-- Equality of forests is decidable. -/
def Forest.decEq : (a b : List Tree) → Decidable (a = b)
  | [], [] => isTrue rfl
  | [], _ :: _ => isFalse nofun
  | _ :: _, [] => isFalse nofun
  | a :: rest, b :: others =>
    match Tree.decEq a b, Forest.decEq rest others with
    | isTrue h, isTrue hs => isTrue (h ▸ hs ▸ rfl)
    | isFalse h, _ => isFalse fun equal => h (List.cons.inj equal).1
    | _, isFalse hs => isFalse fun equal => hs (List.cons.inj equal).2

end

instance : DecidableEq Tree := Tree.decEq

/-- An event of the flat view: a token, or an end of a group. -/
inductive Event where
  | token (value : Token)
  | opening (delimiter : Delimiter) (span : Span)
  | closing (delimiter : Delimiter)
deriving DecidableEq, Repr

mutual

/-- The events of one tree. -/
def Tree.events : Tree → List Event
  | .token value => [.token value]
  | .group delimiter inner span =>
    .opening delimiter span :: (Forest.events inner ++ [.closing delimiter])

/-- The events of a level, left to right. -/
def Forest.events : Forest → List Event
  | [] => []
  | tree :: rest => tree.events ++ Forest.events rest

end

mutual

/-- A tree without any place. -/
def Tree.bare : Tree → Tree
  | .token value => .token value.bare
  | .group delimiter inner _ => .group delimiter (Forest.bare inner) {}

/-- A level without any place. -/
def Forest.bare : Forest → Forest
  | [] => []
  | tree :: rest => tree.bare :: Forest.bare rest

end

namespace Tree

/-- A tree that is one identifier. -/
abbrev ident (value : Ident) : Tree := .token (.ident value)

/-- A tree that is one punctuation mark. -/
abbrev punct (value : Punct) : Tree := .token (.punct value)

/-- A tree that is one literal. -/
abbrev literal (value : Literal) : Tree := .token (.literal value)

/-- Where a tree stands; for a group, where its opening delimiter stands. -/
def span : Tree → Span
  | .token value => value.span
  | .group _ _ span => span

/-- Whether a tree is a mark that the next mark follows without a gap. -/
def isJoint : Tree → Bool
  | .token value => value.isJoint
  | .group .. => false

/-- Whether a tree is the punctuation mark `text`. -/
def isPunct (text : String) : Tree → Bool
  | .token (.punct value) => value.text = text
  | _ => false

/-- Whether a tree is the punctuation mark `text` with the given spacing. -/
def isPunctSpaced (text : String) (spacing : Spacing) : Tree → Bool
  | .token (.punct value) => value.text = text && value.spacing = spacing
  | _ => false

/-- The identifier a tree consists of. -/
def ident? : Tree → Option Ident
  | .token (.ident value) => some value
  | _ => none

/-- Whether a tree is the identifier `text`. -/
def isIdent (text : String) : Tree → Bool
  | .token (.ident value) => value.text = text
  | _ => false

/-- Whether a tree is a group in braces. -/
def isBraces : Tree → Bool
  | .group .brace _ _ => true
  | _ => false

end Tree

namespace Forest

/-- The marks of an operator such as `=>`: all joint but the last. -/
def operator : List Char → Forest
  | [] => []
  | [c] => [.punct { text := c.toString }]
  | c :: rest => .punct { text := c.toString, spacing := .joint } :: operator rest

/-- Whether a level starts with the marks `op`, each joint to the next. -/
def startsWith : (op : List Char) → Forest → Bool
  | [], _ => true
  | _, [] => false
  | [c], tree :: _ => tree.isPunct c.toString
  | c :: op, tree :: rest =>
    tree.isPunctSpaced c.toString .joint && startsWith op rest

/-- Whether a level starts with the path separator `::`. -/
def startsWithSeparator : Forest → Bool
  | first :: second :: _ => first.isPunctSpaced ":" .joint && second.isPunct ":"
  | _ => false

end Forest

end Qualify
