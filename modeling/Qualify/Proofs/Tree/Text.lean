import Qualify.Proofs.Tree.Readable

/-!
# The text of a level, part by part

The one pass over the events of a level writes what the recursion on its trees says
(`render_eq_text`): inside a group it starts out glued and behind it it is not, so that the
flag it carries is always that of the tree in front. The text of two levels side by side
is put together from theirs (`toList_text_append`), with a space between them unless one
of them is empty or the first ends in a joint mark.

## Main definitions

- `Forest.joins` — no space is written between two levels side by side
-/

namespace Qualify

open Event (chars gap)

namespace Forest

/-- Whether no space is written between two levels side by side: one of them is empty, or
the first ends in a joint mark. -/
def joins (front back : Forest) : Bool := front.getLast?.all Tree.isJoint || back.isEmpty

theorem joins_singleton (tree : Tree) (rest : Forest) :
    joins [tree] rest = (tree.isJoint || rest.isEmpty) := rfl

theorem toList_text_cons (tree : Tree) (rest : Forest) :
    (Forest.text (tree :: rest)).toList =
      tree.text.toList ++ (gap (joins [tree] rest) ++ (Forest.text rest).toList) := by
  rw [Forest.text, String.toList_append, String.toList_append, List.append_assoc]
  cases hjoint : tree.isJoint <;> cases rest <;> simp [joins, gap, hjoint]

theorem toList_text_append (front back : Forest) :
    (Forest.text (front ++ back)).toList =
      (Forest.text front).toList ++ (gap (joins front back) ++ (Forest.text back).toList) := by
  induction front with
  | nil => simp [Forest.text, joins, gap]
  | cons tree front ih =>
    rw [List.cons_append, toList_text_cons, toList_text_cons, ih]
    cases front with
    | nil => simp [Forest.text, joins, gap]
    | cons next front => simp [joins]

end Forest

mutual

/-- What is written for a tree in front of further events. -/
theorem Tree.chars_events_append : (tree : Tree) → (glued : Bool) → (events : List Event) →
    chars glued (tree.events ++ events) =
      gap glued ++ (tree.text.toList ++ chars tree.isJoint events)
  | .token value, glued, events => rfl
  | .group delimiter inner span, glued, events => by
    have hinner := Forest.chars_events_append inner true (.closing delimiter :: events)
    rw [Tree.events, List.cons_append, List.append_assoc, List.singleton_append, chars, hinner]
    simp [Tree.text, Tree.isJoint, chars, gap]

/-- What is written for a level in front of further events. -/
theorem Forest.chars_events_append : (trees : Forest) → (glued : Bool) → (events : List Event) →
    chars glued (Forest.events trees ++ events) =
      gap (glued || trees.isEmpty) ++ ((Forest.text trees).toList ++
        chars ((trees.getLast?.map Tree.isJoint).getD glued) events)
  | [], glued, events => by simp [Forest.events, Forest.text, gap]
  | tree :: rest, glued, events => by
    have htree := Tree.chars_events_append tree glued (Forest.events rest ++ events)
    have hrest := Forest.chars_events_append rest tree.isJoint events
    rw [Forest.events, List.append_assoc, htree, hrest, Forest.toList_text_cons,
      Forest.joins_singleton, List.getLast?_cons]
    cases hlast : rest.getLast? <;> simp

end

namespace Forest

/-- One pass over the events and recursion on the trees write the same text. -/
theorem render_eq_text (trees : Forest) : trees.render = trees.text := by
  have hchars := chars_events_append trees true []
  rw [List.append_nil, ← toList_render] at hchars
  apply String.toList_inj.mp
  rw [hchars]
  simp [gap, chars]

end Forest

end Qualify
