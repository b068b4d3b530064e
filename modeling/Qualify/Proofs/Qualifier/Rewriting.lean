import Qualify.Proofs.Qualifier.Recursion
import Qualify.Proofs.Scope.Words

/-!
# Qualifying is rewriting

Qualifying a level without namespacing rewrites its events (`rewritten_level`): a bare
identifier gives way to a word, and every other event is kept. The one way to touch the
name of a lifetime is a `#` in front of its tick. It makes the tick pass as an
untouched token, so that the state behind it no longer tells a name apart.

## Main definitions

- `Forest.splicesLifetime` — a `#` directly in front of a lifetime, at any level
- `Qualifier.Guarded` — what each step of a level keeps where there is none
-/

namespace Qualify

open Event (Readable Rewritten)

/-- Whether a level starts with a lifetime. -/
def Forest.startsWithLifetime : Forest → Bool
  | tick :: name :: _ => tick.isPunctSpaced "'" .joint && name.ident?.isSome
  | _ => false

mutual

/-- Whether a `#` stands directly in front of a lifetime inside a tree. -/
def Tree.splicesLifetime : Tree → Bool
  | .token _ => false
  | .group _ inner _ => Forest.splicesLifetime inner

/-- Whether a `#` stands directly in front of a lifetime at any level. -/
def Forest.splicesLifetime : Forest → Bool
  | [] => false
  | tree :: rest =>
    tree.isPunct "#" && Forest.startsWithLifetime rest || tree.splicesLifetime ||
      Forest.splicesLifetime rest

end

theorem Forest.events_group_append (delimiter : Delimiter) (inner rest : Forest) (span : Span)
    (events : List Event) :
    Forest.events (.group delimiter inner span :: rest) ++ events =
      .opening delimiter span ::
        (Forest.events inner ++ .closing delimiter :: (Forest.events rest ++ events)) := by
  simp [Forest.events, Tree.events]

namespace Qualifier

theorem state_plain_tick (scope : Scope) {state : State} {mark : Punct}
    (h : Event.isTick (.token (.punct mark)) = true) (hstate : state ≠ .afterPound) :
    (plain scope state (.punct mark)).state = .afterTick := by
  simp only [Event.isTick, Bool.and_eq_true, decide_eq_true_eq] at h
  rw [plain_punct_of_ne_afterPound scope mark hstate]
  simp [State.afterPunct, h.1, h.2]

/-- Only a `#` leads to the state behind one. -/
theorem isPunct_of_state_plain {scope : Scope} {state : State} {token : Token}
    (h : (plain scope state token).state = .afterPound) :
    (Tree.token token).isPunct "#" = true := by
  unfold plain at h
  split at h
  · cases h
  · cases h
  · cases h
  · next mark hstate =>
    rw [State.afterPunct] at h
    split at h
    · split at h
      · cases h
      · exact absurd h hstate
    split at h
    · next hmark => simpa [Tree.isPunct] using hmark
    split at h
    · cases h
    · cases h
  · cases h

/-- A token that is no bare identifier comes out as it is. -/
theorem out_plain_of_not_bare (scope : Scope) {state : State} {token : Token}
    (h : ¬ (state = .normal ∧ (Tree.token token).ident? ≠ none)) :
    (plain scope state token).out = [.token token] := by
  by_cases hident : (Tree.token token).ident? = none
  · exact out_plain_of_ident?_eq_none scope state hident
  · obtain ⟨ident, hsome⟩ := Option.ne_none_iff_exists'.mp hident
    cases Declaration.exists_ident_of_ident? hsome
    rw [plain_ident_of_ne_normal scope ident fun hstate => h ⟨hstate, hident⟩]

/-- What holds in front of the rest of a level: nothing is held back, no `#` stands in
front of a lifetime, neither inside nor the one that led to the state, and behind a
tick an identifier is not bare. -/
structure Guarded (state : State) (ticked : Bool) (trees : Forest) : Prop where
  held : state.held = []
  splices : trees.splicesLifetime = false
  pound : state = .afterPound → trees.startsWithLifetime = false
  tick : ticked = true → state = .normal → trees.head?.bind Tree.ident? = none

theorem guarded_start {trees : Forest} (h : trees.splicesLifetime = false) :
    Guarded .normal false trees where
  held := rfl
  splices := h
  pound hstate := absurd hstate (by decide)
  tick hticked := absurd hticked (by decide)

/-- A tick that leads to the state `normal` stands behind a `#`, and is not that of a
lifetime where none is spliced in. -/
theorem Guarded.head?_of_tick {scope : Scope} {state : State} {ticked : Bool} {token : Token}
    {rest : Forest} (h : Guarded state ticked (.token token :: rest))
    (htick : Event.isTick (.token token) = true)
    (hnormal : (plain scope state token).state = .normal) :
    rest.head?.bind Tree.ident? = none := by
  cases token with
  | ident ident => cases htick
  | literal literal => cases htick
  | punct mark =>
    by_cases hstate : state = .afterPound
    · have hstarts := h.pound hstate
      simp only [Event.isTick, Bool.and_eq_true, decide_eq_true_eq] at htick
      cases rest with
      | nil => rfl
      | cons name rest =>
        simpa [Forest.startsWithLifetime, Tree.isPunctSpaced, htick] using hstarts
    · rw [state_plain_tick scope htick hstate] at hnormal
      cases hnormal

theorem Guarded.step {state : State} {ticked : Bool} {token : Token} {rest : Forest}
    (h : Guarded state ticked (.token token :: rest)) (scope : Scope) :
    Guarded (plain scope state token).state (Event.isTick (.token token)) rest := by
  have hsplices := h.splices
  simp only [Forest.splicesLifetime, Bool.or_eq_false_iff] at hsplices
  refine ⟨held_plain scope token h.held, hsplices.2, fun hafter => ?_, h.head?_of_tick⟩
  have hmark := isPunct_of_state_plain hafter
  simpa [hmark] using hsplices.1.1

theorem Guarded.group {state : State} {ticked : Bool} {delimiter : Delimiter} {inner rest : Forest}
    {span : Span} (h : Guarded state ticked (.group delimiter inner span :: rest)) :
    Guarded .normal false inner ∧ Guarded .normal false rest := by
  have hsplices := h.splices
  simp only [Forest.splicesLifetime, Tree.splicesLifetime, Bool.or_eq_false_iff] at hsplices
  exact ⟨guarded_start hsplices.1.2, guarded_start hsplices.2⟩

/-- One token: a bare identifier gives way to a word, any other token is kept. -/
theorem Guarded.rewritten_token {scope : Scope} (hwords : scope.Words) {state : State}
    {ticked : Bool} {token : Token} {rest : Forest} {old new : List Event}
    (h : Guarded state ticked (.token token :: rest))
    (hnext : Rewritten (Event.isTick (.token token)) old new) :
    Rewritten ticked (.token token :: old)
      (Forest.events (plain scope state token).out ++ new) := by
  by_cases hbare : state = .normal ∧ (Tree.token token).ident? ≠ none
  · obtain ⟨rfl, hident⟩ := hbare
    obtain ⟨ident, hident⟩ := Option.ne_none_iff_exists'.mp hident
    cases Declaration.exists_ident_of_ident? hident
    -- Behind a tick the state `normal` is reached only where no identifier follows.
    obtain rfl : ticked = false := by
      cases ticked with
      | false => rfl
      | true => cases h.tick rfl rfl
    simp only [plain, substitute]
    split
    · next binding hlookup => exact .replace ident (hwords hlookup) hnext
    · exact .keep _ hnext
  · rw [out_plain_of_not_bare scope hbare]
    exact .keep _ hnext

/-- Qualifying a level rewrites its events, with whatever events behind it. -/
theorem rewritten_level {qualifier : Qualifier} (hroot : qualifier.root = none)
    (hwords : qualifier.scope.Words) {old new : List Event}
    (hrest : ∀ ticked, Rewritten ticked old new) :
    (trees : Forest) → {state : State} → {ticked : Bool} → Guarded state ticked trees →
    Readable (Forest.events trees ++ old) →
    Rewritten ticked (Forest.events trees ++ old)
      (Forest.events (qualifier.level state trees) ++ new)
  | [], state, ticked, hguarded, _ => by
    rw [level, hguarded.held]
    exact hrest ticked
  | .token token :: rest, state, ticked, hguarded, hr => by
    have hstep : qualifier.step state token = plain qualifier.scope state token := by
      rw [Qualifier.step, hroot]
    rw [level]
    simp only [hstep, Forest.events_append, List.append_assoc]
    exact hguarded.rewritten_token hwords
      (rewritten_level hroot hwords hrest rest (hguarded.step qualifier.scope) hr.tail)
  | .group delimiter inner span :: rest, state, ticked, hguarded, hr => by
    obtain ⟨hinner, hbehind⟩ := hguarded.group
    rw [Forest.events_group_append] at hr ⊢
    have hvisible : delimiter ≠ .invisible := by
      cases hr with
      | opening visible _ => exact visible
    rw [level, group, regroup, if_neg hvisible, hguarded.held, List.nil_append,
      List.singleton_append, Forest.events_group_append]
    -- The contents are rewritten with the closing event and the rest of the level behind them.
    have hback (ticked : Bool) : Rewritten ticked
        (.closing delimiter :: (Forest.events rest ++ old))
        (.closing delimiter :: (Forest.events (qualifier.level .normal rest) ++ new)) :=
      .keep _ (rewritten_level hroot hwords hrest rest hbehind hr.tail.of_append.tail)
    exact .keep _ (rewritten_level hroot hwords hback inner hinner hr.tail)
termination_by trees => sizeOf trees

end Qualifier

end Qualify
