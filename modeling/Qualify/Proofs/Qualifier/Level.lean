import Qualify.Proofs.Qualifier.Recursion
import Qualify.Proofs.Tree.Layout

/-!
# Levels in parts

A level is qualified from left to right, and what comes before matters to what follows
only through a state. `Qualifier.after` is the state behind a part of a level. Where
nothing is held back there, the part and the rest are qualified one after the other
(`level_append`); a group always parts a level (`level_append_group`). So a level at any
depth of a body is qualified in its place, as if it stood alone (`qualify_fill`).

## Main definitions

- `Qualifier.after` — the state of a level behind trees
- `Forest.Enclosure` — a group that holds a level, with the trees beside it
- `Forest.fill` — a level inside enclosures
-/

namespace Qualify

namespace Qualifier

/-- The state of a level behind trees. A group is followed as if nothing stood in
front. -/
def after (qualifier : Qualifier) : State → Forest → State
  | state, [] => state
  | state, .token token :: rest => qualifier.after (qualifier.step state token).state rest
  | _, .group .. :: rest => qualifier.after .normal rest

theorem after_append (qualifier : Qualifier) (state : State) (front back : Forest) :
    qualifier.after state (front ++ back) =
      qualifier.after (qualifier.after state front) back := by
  induction front generalizing state with
  | nil => rfl
  | cons tree rest ih =>
    cases tree with
    | token token => exact ih _
    | group delimiter inner span => exact ih _

theorem step_of_root_eq_none {qualifier : Qualifier} (hroot : qualifier.root = none) :
    qualifier.step = plain qualifier.scope := by
  rw [step, hroot]

/-- With namespacing off nothing is held back behind trees. -/
theorem held_after {qualifier : Qualifier} (hroot : qualifier.root = none) {state : State}
    (trees : Forest) (h : state.held = []) : (qualifier.after state trees).held = [] := by
  induction trees generalizing state with
  | nil => exact h
  | cons tree rest ih =>
    cases tree with
    | token token =>
      refine ih ?_
      rw [step_of_root_eq_none hroot]
      exact held_plain qualifier.scope token h
    | group delimiter inner span => exact ih rfl

/-- Where nothing is held back, the front of a level and the rest of it are qualified
one after the other. -/
theorem level_append (qualifier : Qualifier) {state : State} {front : Forest} (back : Forest)
    (h : (qualifier.after state front).held = []) :
    qualifier.level state (front ++ back) =
      qualifier.level state front ++ qualifier.level (qualifier.after state front) back := by
  induction front generalizing state with
  | nil =>
    have hheld : state.held = [] := h
    rw [List.nil_append, level, hheld]
    rfl
  | cons tree rest ih =>
    cases tree with
    | token token =>
      rw [List.cons_append, level, level, ih h, List.append_assoc]
      rfl
    | group delimiter inner span =>
      rw [List.cons_append, level, level, ih h]
      simp only [List.append_assoc]
      rfl

/-- A group parts a level: what stands in front of it ends there, and what follows
starts afresh. -/
theorem level_append_group (qualifier : Qualifier) (state : State) (front : Forest)
    (delimiter : Delimiter) (inner : Forest) (span : Span) (back : Forest) :
    qualifier.level state (front ++ .group delimiter inner span :: back) =
      qualifier.level state front ++
        (regroup delimiter (qualifier.level .normal inner) span ++
          qualifier.level .normal back) := by
  induction front generalizing state with
  | nil => rw [List.nil_append, level, level, group]
  | cons tree rest ih =>
    cases tree with
    | token token => rw [List.cons_append, level, level, ih, List.append_assoc]
    | group => rw [List.cons_append, level, level, ih]; simp only [List.append_assoc]

end Qualifier

/-! ### Levels at any depth -/

namespace Forest

/-- A group that holds a level, and the trees beside it. -/
structure Enclosure where
  front : Forest
  delimiter : Delimiter
  span : Span
  back : Forest
deriving DecidableEq, Repr

/-- An enclosure with the trees beside its group changed. -/
def Enclosure.map (change : Forest → Forest) (enclosure : Enclosure) : Enclosure :=
  { enclosure with front := change enclosure.front, back := change enclosure.back }

/-- A level inside enclosures, the outermost one first. -/
def fill : List Enclosure → Forest → Forest
  | [], level => level
  | outer :: inside, level =>
    outer.front ++ .group outer.delimiter (fill inside level) outer.span :: outer.back

theorem isVisible_append (front back : Forest) :
    Forest.isVisible (front ++ back) = (front.isVisible && back.isVisible) := by
  induction front with
  | nil => rfl
  | cons tree rest ih => rw [List.cons_append, isVisible, isVisible, ih, Bool.and_assoc]

/-- A level at some depth of visible trees is qualified in its place, as if it stood
alone. -/
theorem qualify_fill (qualifier : Qualifier) {enclosures : List Enclosure} {level : Forest}
    (h : (fill enclosures level).isVisible = true) :
    qualifier.qualify (fill enclosures level) =
      fill (enclosures.map (·.map qualifier.qualify)) (qualifier.qualify level) := by
  induction enclosures with
  | nil => rfl
  | cons outer inside ih =>
    simp only [fill, isVisible_append, isVisible, Tree.isVisible, Bool.and_eq_true,
      decide_eq_true_eq] at h
    obtain ⟨-, ⟨hvisible, hinside⟩, -⟩ := h
    have hinner := ih hinside
    rw [Qualifier.qualify_eq_level] at hinner
    rw [fill, Qualifier.qualify_eq_level, Qualifier.level_append_group, hinner,
      Qualifier.regroup, if_neg hvisible]
    simp only [List.map_cons, fill, Enclosure.map, Qualifier.qualify_eq_level,
      List.singleton_append]

end Forest

end Qualify
