import Qualify.Tree

/-!
# Text of token trees

Trees are written one after another with a single space between them; a joint
mark is glued to what follows, and nothing separates a delimiter from the
contents it encloses. `Forest.render` is one pass over the events of a forest
that remembers only whether the next item is glued. `Forest.text` says the same
by recursion on the trees.
-/

namespace Qualify

/-- The text written so far, and whether the next item follows without a space. -/
structure Writer where
  text : String
  glued : Bool
deriving DecidableEq, Repr

namespace Writer

/-- Nothing is written yet, and the first item needs no space. -/
def start : Writer := ⟨"", true⟩

/-- Write an item after its space, if it needs one. -/
def item (writer : Writer) (text : String) (glued : Bool) : Writer :=
  ⟨(if writer.glued then writer.text else writer.text ++ " ") ++ text, glued⟩

/-- Write one event. -/
def feed (writer : Writer) : Event → Writer
  | .token value => writer.item value.text value.isJoint
  | .opening delimiter _ => writer.item delimiter.opener true
  | .closing delimiter => ⟨writer.text ++ delimiter.closer, false⟩

end Writer

/-- The text of a level, written in one pass over its events. -/
def Forest.render (trees : Forest) : String :=
  (trees.events.foldl Writer.feed Writer.start).text

/-- The text of one tree. -/
def Tree.render (tree : Tree) : String :=
  Forest.render [tree]

mutual

/-- The text of one tree, by recursion. -/
def Tree.text : Tree → String
  | .token value => value.text
  | .group delimiter inner _ => delimiter.opener ++ Forest.text inner ++ delimiter.closer

/-- The text of a level, by recursion: each tree but the last is followed by a
space unless it is joint. -/
def Forest.text : Forest → String
  | [] => ""
  | tree :: rest =>
    tree.text ++ (if rest.isEmpty || tree.isJoint then "" else " ") ++ Forest.text rest

end

end Qualify
