import Qualify.Path

/-!
# One declaration

A declaration is `use`, an optional `::`, items and `;`. Items are separated by
commas, the last one optionally followed by one. An item is a group of items in
braces, or a chain of segments joined by `::` that ends as it is, in `as` and a
name, or in `::` and a group of items in braces.

## Main definitions

- `Declaration.items` — read the items of one level
- `Declaration.chain`, `Declaration.separated` — go on after a segment, and after
  an alias or a group
- `Declaration.item` — read one declaration

## Design notes

Readers of a level take the `path` that the next item continues and the `parent`
that every further item of the level starts from; inside braces both start out as
the path in front of the braces. A reader that fails gives, beside the error, the
trees that were left on its level, and a fault inside braces leaves what follows
the braces.
-/

namespace Qualify

/-- An error and the trees left on the level when it was met. -/
structure Failure where
  error : SyntaxError
  left : Forest
deriving DecidableEq, Repr

/-- What reading a level gives: bindings and the trees that are left. -/
abbrev Reading := Except Failure (List Binding × Forest)

namespace Declaration

/-- Put bindings in front of those of a reading. -/
def prepend (bindings : List Binding) : Reading → Reading
  | .ok (more, left) => .ok (bindings ++ more, left)
  | .error failure => .error failure

/-- Where an error about the next tree is reported: at that tree, or at `stop`
when the level has ended. -/
def spanAt (stop : Span) : Forest → Span
  | [] => stop
  | tree :: _ => tree.span

/-- Fail with the trees that are left. -/
def fail (cause : Cause) (span : Span) (left : Forest) : Reading :=
  .error ⟨⟨cause, span⟩, left⟩

/-- Whether a segment or a group in braces can follow `::` here. A glob is let
through for the sake of its own error. -/
def segmentFollows : Forest → Bool
  | [] => false
  | tree :: _ => tree.ident?.isSome || tree.isBraces || tree.isPunct "#" || tree.isPunct "*"

/-- A `;` ends the items of a declaration and is left for it to read. -/
def semicolon (place : Place) (bindings : List Binding) (tree : Tree) (rest : Forest) : Reading :=
  match place with
  | .top => .ok (bindings, tree :: rest)
  | .nested => fail .semicolonInBraces tree.span (tree :: rest)

mutual

/-- Read items up to the end of the level, or up to a `;`. -/
def items (place : Place) (parent path : Path) (stop : Span) : Forest → Reading
  | [] => .ok ([], [])
  | tree :: rest =>
    if tree.isPunct ";" then semicolon place [] tree rest
    else if tree.isBraces then
      match members path tree with
      | .error error => .error ⟨error, rest⟩
      | .ok bindings => prepend bindings (separated .group place parent stop rest)
    else if tree.isPunct "*" then fail .glob tree.span (tree :: rest)
    else
      match tree with
      | .token (.ident ident) => chain place parent path (.name ident) stop rest
      | .token (.punct marker) =>
        if marker.text = "#" then
          match rest with
          | [] => fail .missingPlaceholder stop []
          | value :: after => chain place parent path (.placeholder marker value) stop after
        else fail (.missingSegment (.ofForest (tree :: rest))) tree.span (tree :: rest)
      | _ => fail (.missingSegment (.ofForest (tree :: rest))) tree.span (tree :: rest)

/-- Go on after the segment `last` of a chain whose earlier segments are `front`. -/
def chain (place : Place) (parent front : Path) (last : Segment) (stop : Span) : Forest → Reading
  | [] =>
    match Binding.plain front last with
    | .error error => .error ⟨error, []⟩
    | .ok binding => .ok ([binding], [])
  | tree :: rest =>
    if tree.isPunct "," then
      match Binding.plain front last with
      | .error error => .error ⟨error, rest⟩
      | .ok binding => prepend [binding] (items place parent parent stop rest)
    else if tree.isPunct ";" then
      match place, Binding.plain front last with
      | .top, .error error => .error ⟨error, tree :: rest⟩
      | .top, .ok binding => semicolon .top [binding] tree rest
      | .nested, _ => semicolon .nested [] tree rest
    else if tree.isIdent "as" then
      match Binding.target front last with
      | .error error => .error ⟨error, rest⟩
      | .ok path =>
        match rest with
        | [] => fail (.missingAlias .nothing) tree.span []
        | value :: after =>
          match value.ident? with
          | none => fail (.missingAlias (.ofForest rest)) value.span rest
          | some name => prepend [⟨name, path⟩] (separated .renaming place parent stop after)
    else
      match rest with
      | second :: after =>
        if tree.isPunctSpaced ":" .joint && second.isPunct ":" then
          if last.isSelf then fail .selfContinued tree.span (tree :: rest)
          else if segmentFollows after then items place parent (front ++ [last]) stop after
          else fail (.danglingSeparator (.ofForest after)) (spanAt stop after) after
        else fail (.unendedChain place (.ofForest (tree :: rest))) tree.span (tree :: rest)
      | [] => fail (.unendedChain place (.ofForest [tree])) tree.span [tree]

/-- Go on after an item that ended in an alias or in a group. -/
def separated (ended : Ended) (place : Place) (parent : Path) (stop : Span) : Forest → Reading
  | [] => .ok ([], [])
  | tree :: rest =>
    if tree.isPunct ";" then semicolon place [] tree rest
    else if tree.isPunct "," then items place parent parent stop rest
    else if ended = .group && tree.isIdent "as" then fail .renamedGroup tree.span (tree :: rest)
    else if ended = .renaming && Forest.startsWithSeparator (tree :: rest) then
      fail .aliasContinued tree.span (tree :: rest)
    else fail (.missingSeparator ended place (.ofForest (tree :: rest))) tree.span (tree :: rest)

/-- Read the items inside a group, each continuing `path`. -/
def members (path : Path) : Tree → Except SyntaxError (List Binding)
  | .token _ => .ok []
  | .group _ inner span =>
    match items .nested path path span inner with
    | .error failure => .error failure.error
    | .ok (bindings, _) => .ok bindings

end

/-- A level without a separator in front. -/
def dropSeparator (trees : Forest) : Forest :=
  if trees.startsWithSeparator then trees.drop 2 else trees

/-- Read the `;` that ends a declaration. -/
def finish (stop : Span) (bindings : List Binding) : Forest → Reading
  | [] => fail (.missingSemicolon .nothing) stop []
  | tree :: rest =>
    if tree.isPunct ";" then .ok (bindings, rest)
    else fail (.missingSemicolon (.ofForest (tree :: rest))) tree.span (tree :: rest)

/-- Read one declaration, from its `use` to its `;`. -/
def item (stop : Span) : Forest → Reading
  | [] => fail (.missingUse .nothing) stop []
  | tree :: rest =>
    if tree.isIdent "use" then
      match items .top [] [] stop (dropSeparator rest) with
      | .error failure => .error failure
      | .ok (bindings, left) => finish stop bindings left
    else fail (.missingUse (.ofForest (tree :: rest))) tree.span (tree :: rest)

/-! ### Reading shortens a level -/

/-- A reading that succeeds leaves at most `bound` trees. -/
structure LeavesAtMost (bound : Nat) (reading : Reading) : Prop where
  length_le : ∀ bindings left, reading = .ok (bindings, left) → left.length ≤ bound

/-- A reading leaves what it says it leaves. -/
theorem LeavesAtMost.ok {bound : Nat} {bindings : List Binding} {left : Forest}
    (h : left.length ≤ bound) : LeavesAtMost bound (.ok (bindings, left)) := by
  constructor
  rintro _ _ ⟨⟩
  exact h

/-- A reading that fails promises nothing. -/
theorem LeavesAtMost.error {bound : Nat} {failure : Failure} :
    LeavesAtMost bound (.error failure) := ⟨nofun⟩

/-- A bound may be raised. -/
theorem LeavesAtMost.mono {small large : Nat} {reading : Reading} (h : LeavesAtMost small reading)
    (le : small ≤ large) : LeavesAtMost large reading :=
  ⟨fun bindings left equal => Nat.le_trans (h.length_le bindings left equal) le⟩

/-- Bindings put in front leave the trees as they are. -/
theorem LeavesAtMost.prepend {bound : Nat} {reading : Reading} {bindings : List Binding}
    (h : LeavesAtMost bound reading) : LeavesAtMost bound (prepend bindings reading) := by
  cases reading with
  | error failure => exact .error
  | ok value => exact .ok (h.length_le value.1 value.2 rfl)

/-- A `;` is left on the level. -/
theorem leavesAtMost_semicolon (place : Place) (bindings : List Binding) (tree : Tree)
    (rest : Forest) : LeavesAtMost (rest.length + 1) (semicolon place bindings tree rest) := by
  cases place with
  | top => exact .ok (Nat.le_refl _)
  | nested => exact .error

mutual

/-- Items never lengthen a level. -/
theorem leavesAtMost_items (place : Place) (parent path : Path) (stop : Span) :
    ∀ trees : Forest, LeavesAtMost trees.length (items place parent path stop trees)
  | [] => by unfold items; exact .ok (Nat.le_refl _)
  | tree :: rest => by
    unfold items
    split
    · exact leavesAtMost_semicolon ..
    split
    · split
      · exact .error
      · exact ((leavesAtMost_separated ..).mono (by simp)).prepend
    split
    · exact .error
    split
    · exact (leavesAtMost_chain ..).mono (by simp)
    · split
      · split
        · exact .error
        · exact (leavesAtMost_chain ..).mono (by simp; omega)
      · exact .error
    · exact .error

/-- The rest of a chain never lengthens a level. -/
theorem leavesAtMost_chain (place : Place) (parent front : Path) (last : Segment) (stop : Span) :
    ∀ trees : Forest, LeavesAtMost trees.length (chain place parent front last stop trees)
  | [] => by
    unfold chain
    split
    · exact .error
    · exact .ok (Nat.le_refl _)
  | tree :: rest => by
    unfold chain
    split
    · split
      · exact .error
      · exact ((leavesAtMost_items ..).mono (by simp)).prepend
    split
    · split
      · exact .error
      · exact leavesAtMost_semicolon ..
      · exact leavesAtMost_semicolon ..
    split
    · split
      · exact .error
      · split
        · exact .error
        · split
          · exact .error
          · exact ((leavesAtMost_separated ..).mono (by simp; omega)).prepend
    split
    · split
      · split
        · exact .error
        split
        · exact (leavesAtMost_items ..).mono (by simp; omega)
        · exact .error
      · exact .error
    · exact .error

/-- What follows an item never lengthens a level. -/
theorem leavesAtMost_separated (ended : Ended) (place : Place) (parent : Path) (stop : Span) :
    ∀ trees : Forest, LeavesAtMost trees.length (separated ended place parent stop trees)
  | [] => by unfold separated; exact .ok (Nat.le_refl _)
  | tree :: rest => by
    unfold separated
    split
    · exact leavesAtMost_semicolon ..
    split
    · exact (leavesAtMost_items ..).mono (by simp)
    split
    · exact .error
    split <;> exact .error

end

/-- Dropping a separator never lengthens a level. -/
theorem length_dropSeparator_le (trees : Forest) : (dropSeparator trees).length ≤ trees.length := by
  unfold dropSeparator
  split <;> simp

/-- A declaration takes at least its `use` off a level. -/
theorem length_lt_of_item {stop : Span} {trees left : Forest} {bindings : List Binding}
    (h : item stop trees = .ok (bindings, left)) : left.length < trees.length := by
  unfold item at h
  split at h
  · cases h
  split at h
  · split at h
    · cases h
    · next rest _ _ _ remaining equal =>
      have inner := (leavesAtMost_items ..).length_le _ _ equal
      have outer := length_dropSeparator_le rest
      unfold finish at h
      split at h
      · cases h
      split at h
      · cases h
        simp only [List.length_cons] at inner ⊢
        omega
      · cases h
  · cases h

end Declaration

end Qualify
