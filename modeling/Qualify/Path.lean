import Qualify.Fault

/-!
# Paths and bindings

A `Path` is a list of segments, each a name or a placeholder: a `#` and the one
tree that will be spliced in for it. A `Binding` gives a path a name.

`Path.trees` are the trees a path expands to. A path that starts with a name is
written from the root, with `::` in front; a placeholder at the start brings its
own root. The second colon of a separator is joint exactly before a `#`, as it
would be if the path had been read from a text.
-/

namespace Qualify

/-- A segment of a path. -/
inductive Segment where
  | name (ident : Ident)
  | placeholder (marker : Punct) (tree : Tree)
deriving DecidableEq, Repr

namespace Segment

/-- Whether a segment is the name `self`. -/
def isSelf : Segment → Bool
  | name ident => ident.text = "self"
  | placeholder .. => false

/-- Whether a segment is a placeholder. -/
def isPlaceholder : Segment → Bool
  | name _ => false
  | placeholder .. => true

/-- The trees of a segment. -/
def trees : Segment → Forest
  | name ident => [.ident ident]
  | placeholder marker tree => [.punct marker, tree]

/-- A segment without any place. -/
def bare : Segment → Segment
  | name ident => name { ident with span := {} }
  | placeholder marker tree => placeholder { marker with span := {} } tree.bare

/-- The trees of a segment behind its separator. -/
def rooted (segment : Segment) : Forest :=
  .punct { text := ":", spacing := .joint } ::
    .punct { text := ":", spacing := if segment.isPlaceholder then .joint else .alone } ::
      segment.trees

end Segment

/-- A path, outermost segment first. -/
abbrev Path := List Segment

namespace Path

/-- The trees of a path. -/
def trees : Path → Forest
  | [] => []
  | first :: rest =>
    (if first.isPlaceholder then first.trees else first.rooted) ++ rest.flatMap Segment.rooted

/-- A path without any place. -/
def bare (path : Path) : Path := path.map Segment.bare

/-- The trees of a path that has segments. -/
def render (path : Path) : Except Fault Forest :=
  if path.isEmpty then .error .nothingToRender else .ok path.trees

/-- A path as it is shown to a user. -/
def describe (path : Path) : String :=
  "Path(" ++ path.trees.render ++ ")"

/-- The last segment of a path. -/
def last (path : Path) : Except Fault Segment :=
  match path.getLast? with
  | some segment => .ok segment
  | none => .error .emptyPath

/-- The last segment of a path, and the path without it. -/
def pop (path : Path) : Except Fault (Segment × Path) :=
  match path.getLast? with
  | some segment => .ok (segment, path.dropLast)
  | none => .error .nothingToPop

/-- Whether a path ends in `self`. -/
def endsInSelf (path : Path) : Bool := path.getLast?.any Segment.isSelf

/-- A path without a `self` at its end. -/
def dropSelf (path : Path) : Path :=
  if path.endsInSelf then path.dropLast else path

end Path

/-- The name a segment gives to a path that ends in it. -/
def Segment.bindingName : Segment → Except SyntaxError Ident
  | name ident => .ok ident
  | placeholder marker _ => .error ⟨.placeholderTail, marker.span⟩

/-- A name and the path it stands for. -/
structure Binding where
  name : Ident
  path : Path
deriving DecidableEq, Repr

namespace Binding

/-- A binding without any place. -/
def bare (binding : Binding) : Binding :=
  ⟨{ binding.name with span := {} }, binding.path.bare⟩

/-- A binding on one line. -/
def line (binding : Binding) : String :=
  binding.name.text ++ " => " ++ binding.path.trees.render

/-- The path that a chain of segments leads to: a `self` at its end stands for
the path in front of it. -/
def target (front : Path) (last : Segment) : Except SyntaxError Path :=
  match last with
  | .name ident =>
    if ident.text = "self" then
      if front.isEmpty then .error ⟨.selfAlone, ident.span⟩ else .ok front
    else .ok (front ++ [last])
  | .placeholder .. => .ok (front ++ [last])

/-- Bind a chain of segments under the last name of its path. -/
def plain (front : Path) (last : Segment) : Except SyntaxError Binding :=
  match target front last with
  | .error error => .error error
  | .ok path =>
    match (path.getLast?.getD last).bindingName with
    | .error error => .error error
    | .ok name => .ok ⟨name, path⟩

end Binding

end Qualify
