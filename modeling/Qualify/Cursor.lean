import Qualify.Quote
import Qualify.Tree.Slice

/-!
# Cursors

A `Cursor` is a place on one level of trees. It looks ahead, takes trees off the
level, and reads declarations and span expressions from where it stands. A
reader that fails leaves the cursor where the fault was met.
-/

namespace Qualify

/-- A level, the number of trees taken off it, and the span that errors at its end
are reported at. -/
structure Cursor where
  level : Forest
  position : Nat := 0
  stop : Span := {}
deriving DecidableEq, Repr

namespace Cursor

/-- The trees that are left. -/
def left (cursor : Cursor) : Forest := cursor.level.drop cursor.position

/-- Whether the level has ended. -/
def isEmpty (cursor : Cursor) : Bool := cursor.left.isEmpty

/-- The cursor with only the trees `left` left. -/
def leave (cursor : Cursor) (left : Forest) : Cursor :=
  { cursor with position := cursor.level.length - left.length }

/-- The tree `offset` places ahead, if the level goes on that far. A place before
the start of the level counts from its end. -/
def peek (cursor : Cursor) (offset : Int) : Except Fault (Option Tree) :=
  let index := cursor.position + offset
  if cursor.level.length ≤ index then .ok none else (cursor.level.get index).map some

/-- Whether the tree `offset` places ahead satisfies a test. -/
def peekIs (cursor : Cursor) (test : Tree → Bool) (offset : Int) : Except Fault Bool :=
  (cursor.peek offset).map (·.any test)

/-- Whether the marks `offset` places ahead spell an operator, each joint to the
next. -/
def peekOperator (cursor : Cursor) : (op : List Char) → (offset : Int) → Except Fault Bool
  | [], _ => .ok true
  | [c], offset => cursor.peekIs (·.isPunct c.toString) offset
  | c :: op, offset =>
    match cursor.peekIs (·.isPunctSpaced c.toString .joint) offset with
    | .ok true => peekOperator cursor op (offset + 1)
    | result => result

/-- The span of the next tree, or of the end of the level. -/
def span (cursor : Cursor) : Span := Declaration.spanAt cursor.stop cursor.left

/-- The next tree as messages name it. -/
def describe (cursor : Cursor) : String := (Found.ofForest cursor.left).describe

/-- Take the next tree. -/
def advance (cursor : Cursor) : Except Fault (Tree × Cursor) :=
  match cursor.left with
  | [] => .error .endOfLevel
  | tree :: left => .ok (tree, cursor.leave left)

/-- Take the marks of an operator, if they come next. -/
def accept? (cursor : Cursor) (op : List Char) : Option Cursor :=
  if cursor.left.startsWith op then some (cursor.leave (cursor.left.drop op.length)) else none

/-- Take the identifier `text`, if it comes next. -/
def acceptIdent? (cursor : Cursor) (text : String) : Option Cursor :=
  match cursor.left with
  | [] => none
  | tree :: left => if tree.isIdent text then some (cursor.leave left) else none

/-- Take the next tree, if it is a group, and stand at the start of it; errors at
its end are reported at its opening delimiter. -/
def enter? (cursor : Cursor) : Option (Cursor × Cursor) :=
  match cursor.left with
  | .group _ inner span :: left => some ({ level := inner, stop := span }, cursor.leave left)
  | _ => none

/-- Whether a declaration in the given style comes next. -/
def atDeclaration (cursor : Cursor) (style : Style) : Bool :=
  (Declaration.introduced? style cursor.left).isSome

/-- Read with a reader of levels. -/
def read {α : Type} (cursor : Cursor) (reader : Span → Forest → Except Failure (α × Forest)) :
    Except SyntaxError α × Cursor :=
  match reader cursor.stop cursor.left with
  | .ok (value, left) => (.ok value, cursor.leave left)
  | .error failure => (.error failure.error, cursor.leave failure.left)

end Cursor

end Qualify
