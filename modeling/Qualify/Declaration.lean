import Qualify.Declaration.Item
import Qualify.Tree.Lex

/-!
# Declarations

The declarations at the head of a body. `Declaration.leading` reads them one
after another and stops at the first tree that does not start one; each takes at
least its `use` off the level, so the reading ends.
-/

namespace Qualify

/-- How a declaration is introduced: `# use` or plain `use`. -/
inductive Style where
  | pound
  | bare
deriving DecidableEq, Repr, Inhabited

namespace Declaration

/-- The trees from `use` on, if a declaration in the given style starts here. -/
def introduced? : Style → Forest → Option Forest
  | .pound, pound :: word :: rest =>
    if pound.isPunct "#" && word.isIdent "use" then some (word :: rest) else none
  | .bare, word :: rest => if word.isIdent "use" then some (word :: rest) else none
  | _, _ => none

/-- What starts a declaration is no longer than the level it stands on. -/
theorem length_le_of_introduced? {style : Style} {trees declared : Forest}
    (h : introduced? style trees = some declared) : declared.length ≤ trees.length := by
  unfold introduced? at h
  split at h
  · split at h <;> cases h
    simp
  · split at h <;> cases h
    simp
  · cases h

/-- Read declarations from the front of a level, up to the first tree that does
not start one. -/
def leading (style : Style) (stop : Span) (trees : Forest) : Reading :=
  match _ : introduced? style trees with
  | none => .ok ([], trees)
  | some declared =>
    match _ : item stop declared with
    | .error failure => .error failure
    | .ok (bindings, left) => prepend bindings (leading style stop left)
termination_by trees.length
decreasing_by
  exact Nat.lt_of_lt_of_le (length_lt_of_item ‹_›) (length_le_of_introduced? ‹_›)

/-- Read a level that is one declaration. -/
def single (trees : Forest) : Except SyntaxError (List Binding) :=
  match item {} trees with
  | .error failure => .error failure.error
  | .ok (bindings, []) => .ok bindings
  | .ok (_, tree :: rest) => .error ⟨.trailing (.ofForest (tree :: rest)), tree.span⟩

/-- Read a text that holds nothing but plain declarations. -/
def ofText (file : Option String) (source : String) : Except SyntaxError (List Binding) :=
  match Forest.lex file source with
  | .error error => .error error
  | .ok trees =>
    match leading .bare {} trees with
    | .error failure => .error failure.error
    | .ok (bindings, []) => .ok bindings
    | .ok (_, tree :: rest) => .error ⟨.missingUse (.ofForest (tree :: rest)), tree.span⟩

end Declaration

end Qualify
