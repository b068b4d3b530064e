import Qualify.Proofs.Tree.Text

/-!
# Writing with a stack of open levels

The writer of a text needs no flat view of the trees: it can walk them with a stack of the
levels that are open, each with the trees that are left of it and the delimiter that closes
it, and with one flag for all of them. A `Walk` writes that way, one tree or one closing
delimiter in a step. What its levels still come to can be said by recursion on their trees
(`Walk.ahead`), and no step changes the text as a whole (`Walk.whole_of_step`): the first
tree of a group is glued to what opens the group, and behind a group, empty or not, the flag
is that of a tree that is no joint mark. So a walk from the start ends with the text of the
trees (`Walk.finish_start`), in which each group is written on its own.

## Main definitions

- `Walk.step` — write the next tree, or close the innermost level
- `Walk.finish` — the text after the last step
- `Walk.whole` — the text written so far with all that is left to write
-/

namespace Qualify

open Event (gap)

/-- A level that is open: the trees that are left of it, and the text that closes it. -/
structure OpenLevel where
  left : Forest
  closer : String
deriving DecidableEq, Repr

/-- What is written, and the levels that are open, innermost first. -/
structure Walk where
  writer : Writer
  levels : List OpenLevel
deriving DecidableEq, Repr

namespace Walk

/-- Nothing is written yet, and nothing closes the outermost level. -/
def start (trees : Forest) : Walk := ⟨.start, [⟨trees, ""⟩]⟩

/-- One step of a walk, if a level is open: the next tree of the innermost level is written,
of a group only what opens it, or the level is closed. -/
def step : Walk → Option Walk
  | ⟨_, []⟩ => none
  | ⟨writer, ⟨[], closer⟩ :: outer⟩ => some ⟨⟨writer.text ++ closer, false⟩, outer⟩
  | ⟨writer, ⟨.token value :: rest, closer⟩ :: outer⟩ =>
    some ⟨writer.item value.text value.isJoint, ⟨rest, closer⟩ :: outer⟩
  | ⟨writer, ⟨.group delimiter inner _ :: rest, closer⟩ :: outer⟩ =>
    some ⟨writer.item delimiter.opener true,
      ⟨inner, delimiter.closer⟩ :: ⟨rest, closer⟩ :: outer⟩

/-- The number of steps that the open levels take. -/
def weight : List OpenLevel → Nat
  | [] => 0
  | level :: outer => (Forest.events level.left).length + 1 + weight outer

theorem weight_lt_of_step {walk next : Walk} (h : walk.step = some next) :
    weight next.levels < weight walk.levels := by
  fun_cases step walk with
  | case1 => cases h
  | case2 writer closer outer =>
    cases h
    simp only [weight]
    omega
  | case3 writer value rest closer outer =>
    cases h
    simp only [weight, Forest.events, Tree.events, List.length_append, List.length_singleton]
    omega
  | case4 writer delimiter inner span rest closer outer =>
    cases h
    simp only [weight, Forest.events, Tree.events, List.length_append, List.length_cons,
      List.length_nil]
    omega

/-- The text of a walk once no level is open any more. -/
def finish (walk : Walk) : String :=
  match _ : walk.step with
  | none => walk.writer.text
  | some next => next.finish
termination_by weight walk.levels
decreasing_by exact weight_lt_of_step ‹_›

/-! ### What a step keeps -/

/-- What is left to write of open levels, each by recursion on its trees. -/
def ahead : Bool → List OpenLevel → List Char
  | _, [] => []
  | glued, level :: outer =>
    gap (glued || level.left.isEmpty) ++
      ((Forest.text level.left).toList ++ (level.closer.toList ++ ahead false outer))

/-- The text written so far with all that is left to write. -/
def whole (walk : Walk) : List Char :=
  walk.writer.text.toList ++ ahead walk.writer.glued walk.levels

/-- No step changes the text as a whole: the flag that it leaves behind depends on nothing
but the tree or the delimiter that it writes. -/
theorem whole_of_step {walk next : Walk} (h : walk.step = some next) : next.whole = walk.whole := by
  fun_cases step walk with
  | case1 => cases h
  | case2 writer closer outer =>
    cases h
    simp [whole, ahead, Forest.text, gap]
  | case3 writer value rest closer outer =>
    cases h
    simp only [whole, ahead, Writer.toList_item, Forest.toList_text_cons,
      Forest.joins_singleton, List.isEmpty_cons, Bool.or_false, List.append_assoc]
    rfl
  | case4 writer delimiter inner span rest closer outer =>
    -- Inside, the flag is set; the level around goes on behind the group with it cleared.
    cases h
    simp only [whole, ahead, Writer.toList_item, Forest.toList_text_cons,
      Forest.joins_singleton, Tree.text, String.toList_append, List.isEmpty_cons, Bool.or_false,
      List.append_assoc]
    rfl

theorem levels_eq_nil_of_step {walk : Walk} (h : walk.step = none) : walk.levels = [] := by
  fun_cases step walk with
  | case1 => rfl
  | case2 | case3 | case4 => cases h

/-- A walk ends with the text that its steps keep. -/
theorem toList_finish (walk : Walk) : walk.finish.toList = walk.whole := by
  fun_induction finish walk with
  | case1 walk hstep =>
    rw [whole, levels_eq_nil_of_step hstep, ahead, List.append_nil]
  | case2 walk next hstep ih => rw [ih, whole_of_step hstep]

theorem finish_start (trees : Forest) : (start trees).finish = trees.text := by
  apply String.toList_inj.mp
  rw [toList_finish]
  simp [whole, start, Writer.start, ahead, gap]

end Walk

/-! ### The text of trees -/

theorem Tree.render_eq_text (tree : Tree) : tree.render = tree.text := by
  rw [Tree.render, Forest.render_eq_text]
  simp [Forest.text]

/-- The text of a level is put together from those of its trees. A walk with a stack of open
levels and one flag for all of them writes the same text as one pass over the events. Of no
trees it is empty; of a level it is the text of the first tree, a space unless nothing
follows or that tree is a joint mark, and the text of the rest; and the text of a group is
that of its contents, as if they stood alone, between its delimiters, which an invisible
group does not have. -/
theorem Forest.render_refines_recursion :
    (∀ trees : Forest, (Walk.start trees).finish = trees.render) ∧
      Forest.render [] = "" ∧
      (∀ (tree : Tree) (rest : Forest), Forest.render (tree :: rest) =
        tree.render ++ (if rest = [] ∨ tree.isJoint = true then "" else " ") ++
          Forest.render rest) ∧
      (∀ value : Token, (Tree.token value).render = value.text) ∧
      (∀ (delimiter : Delimiter) (inner : Forest) (span : Span),
        (Tree.group delimiter inner span).render =
          delimiter.opener ++ Forest.render inner ++ delimiter.closer) ∧
      ∀ (inner : Forest) (span : Span),
        (Tree.group .invisible inner span).render = Forest.render inner := by
  simp only [Forest.render_eq_text, Tree.render_eq_text]
  refine ⟨Walk.finish_start, rfl, fun tree rest => ?_, fun value => rfl,
    fun delimiter inner span => rfl, fun inner span => ?_⟩
  · rw [Forest.text]
    cases rest <;> simp
  · simp [Tree.text, Delimiter.opener, Delimiter.closer]

end Qualify
