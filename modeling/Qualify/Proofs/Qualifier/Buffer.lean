import Qualify.Proofs.Qualifier.Recursion
import Qualify.Tree.Slice

/-!
# Levels with a buffer

In a `State` what is held back and why it is held back are one. A `Buffered` level keeps
them apart: a mode, and a buffer that is appended to, emptied and looked into from its
end, which has a tree there only if the buffer agrees with the mode. It does so on every
level of every pass (`Buffered.Kept`): the buffer holds the `$`, or the `$` and the tick,
in the two modes that wait for the next token, and nothing in the others. So the pass
with buffers comes to what the pass with states comes to (`Buffered.rewrite_eq_ok`).

## Main definitions

- `Qualifier.Buffered` — a level with a mode and a buffer
- `Qualifier.Buffered.Kept` — a buffer that agrees with the mode
- `Qualifier.Buffered.run`, `Qualifier.Buffered.rewrite` — a pass over events
-/

namespace Qualify

namespace Qualifier

/-- What the tokens of a level that came before mean for the next one, without what is
held back. -/
inductive Mode where
  | normal
  | afterColon
  | afterPound
  | afterTick
  | dollar
  | dollarTick
deriving DecidableEq, Repr

namespace Mode

/-- The mode after a mark that passes through. -/
def afterPunct (mode : Mode) (mark : Punct) : Mode :=
  if mark.text = ":" then
    match mark.spacing with
    | .joint => afterColon
    | .alone => mode
  else if mark.text = "#" then afterPound
  else if mark.text = "'" && mark.spacing = .joint then afterTick
  else normal

/-- The mode of a state. -/
def ofState : State → Mode
  | .normal => normal
  | .afterColon => afterColon
  | .afterPound => afterPound
  | .afterTick => afterTick
  | .dollar _ => dollar
  | .dollarTick _ _ => dollarTick

theorem ofState_afterPunct (state : State) (mark : Punct) :
    ofState (state.afterPunct mark) = (ofState state).afterPunct mark := by
  unfold State.afterPunct afterPunct
  split
  · cases mark.spacing <;> rfl
  split
  · rfl
  split <;> rfl

end Mode

/-- A level that is being qualified, with the trees it holds back. -/
structure Buffered where
  mode : Mode := .normal
  out : List Tree := []
  pending : Forest := []
deriving DecidableEq, Repr

namespace Buffered

/-- Put out trees. -/
def emit (level : Buffered) (trees : Forest) : Buffered :=
  { level with out := trees.reverse ++ level.out }

/-- Hold back a mark. -/
def hold (level : Buffered) (mode : Mode) (mark : Punct) : Buffered :=
  { level with mode, pending := level.pending ++ [.punct mark] }

/-- Put out trees in the place of those that were held back. -/
def replace (level : Buffered) (trees : Forest) : Buffered :=
  { level.emit trees with mode := .normal, pending := [] }

/-- Let go of what is held back and start afresh. -/
def flush (level : Buffered) : Buffered := level.replace level.pending

/-- Treat a token under the namespace root, as far as `$` concerns it. The flag says
whether that was all. -/
def escape (root : String) (level : Buffered) (token : Token) : Except Fault (Buffered × Bool) :=
  match level.mode, token with
  | .dollar, .ident ident =>
    return (level.replace [.ident { ident with text := root ++ ident.text }], true)
  | .dollar, .punct mark =>
    if mark.text = "$" then return (level.replace [.punct mark], true)
    else if mark.text = "'" then return (level.hold .dollarTick mark, true)
    else return (level.flush, false)
  | .dollarTick, .ident ident => do
    let tick ← Forest.get level.pending (-1)
    return (level.replace [.punct { text := "'", spacing := .joint, span := tick.span },
      .ident { ident with text := root ++ ident.text }], true)
  | .dollar, _ | .dollarTick, _ => return (level.flush, false)
  | .afterPound, _ => return (level, false)
  | _, .punct mark =>
    if mark.text = "$" then return (level.hold .dollar mark, true) else return (level, false)
  | _, _ => return (level, false)

/-- Treat a token where `$` has no meaning. -/
def plain (scope : Scope) (level : Buffered) (token : Token) : Except Fault Buffered :=
  match level.mode, token with
  | .afterPound, token => return { level.emit [.token token] with mode := .normal }
  | mode, .ident ident =>
    match if mode = .normal then scope.lookup? ident.text else none with
    | some binding => do
      let trees ← binding.path.render
      return { level.emit trees with mode := .normal }
    | none => return { level.emit [.ident ident] with mode := .normal }
  | mode, .punct mark => return { level.emit [.punct mark] with mode := mode.afterPunct mark }
  | _, .literal literal => return { level.emit [.literal literal] with mode := .normal }

/-- Treat a token under the namespace root. -/
def namespacing (scope : Scope) (root : String) (level : Buffered) (token : Token) :
    Except Fault Buffered := do
  let (level, done) ← level.escape root token
  if done then return level else level.plain scope token

/-- Take in a token. -/
def feed (qualifier : Qualifier) (level : Buffered) (token : Token) : Except Fault Buffered :=
  match qualifier.root with
  | none => level.plain qualifier.scope token
  | some root => level.namespacing qualifier.scope root token

end Buffered

/-- A level with its state taken apart. -/
def Level.buffered (level : Level) : Buffered :=
  ⟨.ofState level.state, level.out, level.state.held⟩

/-- A level after a step. -/
def Level.stepped (level : Level) (step : Step) : Level :=
  { level.emit step.out with state := step.state }

/-- All paths of a scope can be rendered. -/
def Renders (scope : Scope) : Prop :=
  ∀ binding ∈ scope.all, binding.path.render = .ok binding.path.trees

namespace Buffered

theorem plain_buffered {scope : Scope} (h : Renders scope) (level : Level) (token : Token)
    (hheld : level.state.held = []) :
    level.buffered.plain scope token =
      .ok (level.stepped (Qualifier.plain scope level.state token)).buffered := by
  obtain ⟨state, out⟩ := level
  cases token with
  | ident ident =>
    cases state with
    | dollar => cases hheld
    | dollarTick => cases hheld
    | afterColon | afterTick | afterPound => rfl
    | normal =>
      cases hlookup : scope.lookup? ident.text with
      | none =>
        simp only [Level.buffered, plain, Qualifier.plain, substitute, hlookup, Mode.ofState]
        rfl
      | some binding =>
        have hrender := h binding (List.mem_of_find?_eq_some hlookup)
        simp only [Level.buffered, plain, Qualifier.plain, substitute, hlookup, Mode.ofState,
          if_true, hrender]
        rfl
  | punct mark =>
    cases state with
    | dollar => cases hheld
    | dollarTick => cases hheld
    | afterPound => rfl
    | normal | afterColon | afterTick =>
      simp only [Level.buffered, plain, Qualifier.plain, Level.stepped, Mode.ofState_afterPunct,
        held_afterPunct hheld]
      rfl
  | literal literal =>
    cases state with
    | dollar => cases hheld
    | dollarTick => cases hheld
    | normal | afterColon | afterTick | afterPound => rfl

theorem namespacing_buffered_dollar {scope : Scope} (h : Renders scope) (root : String)
    (held : Punct) (out : List Tree) (token : Token) :
    (Level.buffered ⟨.dollar held, out⟩).namespacing scope root token =
      .ok (Level.stepped ⟨.dollar held, out⟩
        (Qualifier.namespacing scope root (.dollar held) token)).buffered := by
  have hreleased := plain_buffered h (Level.flush ⟨.dollar held, out⟩) token rfl
  cases token with
  | ident ident => rfl
  | literal literal => exact hreleased
  | punct mark =>
    simp only [namespacing, escape, Level.buffered, Mode.ofState, Qualifier.namespacing]
    by_cases hdollar : mark.text = "$"
    · simp only [if_pos hdollar]
      rfl
    by_cases htick : mark.text = "'"
    · simp only [if_neg hdollar, if_pos htick]
      rfl
    simp only [if_neg hdollar, if_neg htick]
    exact hreleased

theorem namespacing_buffered_punct {scope : Scope} (h : Renders scope) (root : String)
    (level : Level) (mark : Punct) (hheld : level.state.held = [])
    (hpound : level.state ≠ .afterPound) :
    level.buffered.namespacing scope root (.punct mark) =
      .ok (level.stepped (Qualifier.namespacing scope root level.state (.punct mark))).buffered := by
  have hplain := plain_buffered h level (.punct mark) hheld
  obtain ⟨state, out⟩ := level
  cases state with
  | dollar => cases hheld
  | dollarTick => cases hheld
  | afterPound => exact absurd rfl hpound
  | normal | afterColon | afterTick =>
    simp only [namespacing, escape, Level.buffered, Mode.ofState, Qualifier.namespacing]
    by_cases hdollar : mark.text = "$"
    · simp only [if_pos hdollar]
      rfl
    · simp only [if_neg hdollar]
      exact hplain

/-- Under the namespace root a token does to the buffer what it does to the state. -/
theorem namespacing_buffered {scope : Scope} (h : Renders scope) (root : String) (level : Level)
    (token : Token) :
    level.buffered.namespacing scope root token =
      .ok (level.stepped (Qualifier.namespacing scope root level.state token)).buffered := by
  have hplain := plain_buffered h level token
  have hreleased := plain_buffered h level.flush token rfl
  have hpunct := namespacing_buffered_punct h root level
  obtain ⟨state, out⟩ := level
  cases state with
  | dollar held => exact namespacing_buffered_dollar h root held out token
  | dollarTick held tick =>
    cases token with
    -- The tick is found at the end of the buffer.
    | ident ident => rfl
    | literal literal => exact hreleased
    | punct mark => exact hreleased
  | afterPound => exact hplain rfl
  | normal | afterColon | afterTick =>
    cases token with
    | punct mark => exact hpunct mark rfl nofun
    | ident ident => exact hplain rfl
    | literal literal => exact hplain rfl

/-- A token is taken in with the buffer as it is with the state. -/
theorem feed_buffered {qualifier : Qualifier} (h : Renders qualifier.scope) {level : Level}
    (hreached : qualifier.Reached level.state) (token : Token) :
    level.buffered.feed qualifier token = .ok (level.feed qualifier token).buffered := by
  have hfeed : level.feed qualifier token =
      level.stepped (qualifier.step level.state token) := rfl
  rw [hfeed, feed, step]
  cases hroot : qualifier.root with
  | none => exact plain_buffered h level token (hreached.held_eq_nil hroot)
  | some root => exact namespacing_buffered h root level token

end Buffered

/-! ### Buffers agree with their modes -/

/-- What is held back is a `$`, and a tick behind it. -/
def Escaping : State → Prop
  | .dollar held => held.text = "$"
  | .dollarTick held tick => held.text = "$" ∧ tick.text = "'"
  | _ => True

theorem escaping_of_held {state : State} (h : state.held = []) : Escaping state := by
  cases state with
  | dollar => cases h
  | dollarTick => cases h
  | normal | afterColon | afterPound | afterTick => trivial

theorem escaping_plain (scope : Scope) {state : State} (token : Token) (h : state.held = []) :
    Escaping (plain scope state token).state :=
  escaping_of_held (held_plain scope token h)

theorem escaping_namespacing (scope : Scope) (root : String) {state : State} (token : Token)
    (h : Escaping state) : Escaping (namespacing scope root state token).state := by
  have hplain := @escaping_plain scope state token
  have hreleased := @escaping_plain scope .normal token rfl
  cases state with
  | dollar held =>
    cases token with
    | ident ident => trivial
    | literal literal => exact hreleased
    | punct mark =>
      rw [namespacing]
      split
      · trivial
      split
      · next htick => exact ⟨h, htick⟩
      · exact hreleased
  | dollarTick held tick =>
    cases token with
    | ident ident => trivial
    | literal literal => exact hreleased
    | punct mark => exact hreleased
  | afterPound => exact hplain rfl
  | normal | afterColon | afterTick =>
    cases token with
    | ident ident => exact hplain rfl
    | literal literal => exact hplain rfl
    | punct mark =>
      by_cases hdollar : mark.text = "$"
      · simp only [namespacing, if_pos hdollar]
        exact hdollar
      · simp only [namespacing, if_neg hdollar]
        exact hplain rfl

/-- In every state a level can be in, only a `$` and a tick behind it are held back. -/
theorem Reached.escaping {qualifier : Qualifier} {state : State} (h : qualifier.Reached state) :
    Escaping state := by
  induction h with
  | start => trivial
  | @step state token hreached ih =>
    rw [Qualifier.step]
    cases hroot : qualifier.root with
    | none => exact escaping_plain qualifier.scope token (hreached.held_eq_nil hroot)
    | some root => exact escaping_namespacing qualifier.scope root token ih

namespace Buffered

/-- The buffer holds the `$`, or the `$` and the tick, where the mode waits for what
follows them, and nothing otherwise. -/
def Kept (level : Buffered) : Prop :=
  match level.mode with
  | .dollar => ∃ held : Punct, held.text = "$" ∧ level.pending = [.punct held]
  | .dollarTick => ∃ held tick : Punct, held.text = "$" ∧ tick.text = "'" ∧
      level.pending = [.punct held, .punct tick]
  | _ => level.pending = []

theorem kept_buffered {level : Level} (h : Escaping level.state) : level.buffered.Kept := by
  obtain ⟨state, out⟩ := level
  cases state with
  | dollar held => exact ⟨held, h, rfl⟩
  | dollarTick held tick => exact ⟨held, tick, h.1, h.2, rfl⟩
  | normal | afterColon | afterPound | afterTick => rfl

/-! ### Passes -/

/-- The innermost open level and the levels around it. -/
structure Pass where
  level : Buffered := {}
  enclosing : List (Delimiter × Span × Buffered) := []
deriving DecidableEq, Repr

namespace Pass

/-- All open levels, innermost first. -/
def levels (pass : Pass) : List Buffered := pass.level :: pass.enclosing.map (·.2.2)

/-- Take in an event. -/
def feed (qualifier : Qualifier) (pass : Pass) : Event → Except Fault Pass
  | .token token => do
    let level ← pass.level.feed qualifier token
    return { pass with level }
  | .opening delimiter span => return ⟨{}, (delimiter, span, pass.level.flush) :: pass.enclosing⟩
  | .closing _ =>
    match pass.enclosing with
    | [] => return pass
    | (delimiter, span, outer) :: enclosing =>
      return ⟨outer.emit (regroup delimiter pass.level.flush.out.reverse span), enclosing⟩

end Pass

/-- The pass over events. -/
def run (qualifier : Qualifier) (events : List Event) : Except Fault Pass :=
  events.foldlM (Pass.feed qualifier) {}

/-- Qualify the names of a body. -/
def rewrite (qualifier : Qualifier) (trees : Forest) : Except Fault Forest := do
  let pass ← run qualifier trees.events
  return pass.level.flush.out.reverse

end Buffered

/-- A pass with its states taken apart. -/
def Pass.buffered (pass : Pass) : Buffered.Pass :=
  ⟨pass.level.buffered, pass.enclosing.map fun (delimiter, span, level) =>
    (delimiter, span, level.buffered)⟩

/-- Every open level is in a state that a level can be in. -/
structure Pass.Reached (qualifier : Qualifier) (pass : Pass) : Prop where
  level : qualifier.Reached pass.level.state
  enclosing : ∀ outer ∈ pass.enclosing, qualifier.Reached outer.2.2.state

theorem Pass.Reached.feed {qualifier : Qualifier} {pass : Pass} (h : pass.Reached qualifier)
    (event : Event) : (qualifier.feed pass event).Reached qualifier := by
  cases event with
  | token token => exact ⟨.step token h.level, h.enclosing⟩
  | opening delimiter span =>
    refine ⟨.start, ?_⟩
    intro outer hmem
    rcases List.mem_cons.mp hmem with rfl | hmem
    · exact .start
    · exact h.enclosing outer hmem
  | closing delimiter =>
    obtain ⟨level, enclosing⟩ := pass
    cases enclosing with
    | nil => exact h
    | cons outer enclosing =>
      refine ⟨h.enclosing outer List.mem_cons_self, ?_⟩
      intro further hmem
      exact h.enclosing further (List.mem_cons_of_mem _ hmem)

theorem Pass.Reached.foldl {qualifier : Qualifier} {pass : Pass} (h : pass.Reached qualifier)
    (events : List Event) : (events.foldl qualifier.feed pass).Reached qualifier := by
  induction events generalizing pass with
  | nil => exact h
  | cons event events ih => exact ih (h.feed event)

theorem Pass.Reached.start (qualifier : Qualifier) : Pass.Reached qualifier {} :=
  ⟨.start, List.forall_mem_nil _⟩

namespace Buffered

theorem Pass.feed_buffered {qualifier : Qualifier} (h : Renders qualifier.scope)
    {pass : Qualifier.Pass} (hreached : pass.Reached qualifier) (event : Event) :
    pass.buffered.feed qualifier event = .ok (qualifier.feed pass event).buffered := by
  cases event with
  | token token =>
    have hlevel := Buffered.feed_buffered h hreached.level token
    simp only [Pass.feed, Qualifier.Pass.buffered, hlevel]
    rfl
  | opening delimiter span => rfl
  | closing delimiter =>
    obtain ⟨level, enclosing⟩ := pass
    cases enclosing with
    | nil => rfl
    | cons outer enclosing => rfl

theorem Pass.foldlM_buffered {qualifier : Qualifier} (h : Renders qualifier.scope)
    (events : List Event) {pass : Qualifier.Pass} (hreached : pass.Reached qualifier) :
    events.foldlM (Pass.feed qualifier) pass.buffered =
      .ok (events.foldl qualifier.feed pass).buffered := by
  induction events generalizing pass with
  | nil => rfl
  | cons event events ih =>
    rw [List.foldlM_cons, Pass.feed_buffered h hreached event]
    exact ih (hreached.feed event)

/-- The pass with buffers goes as the pass with states does, over all events. -/
theorem run_eq_ok {qualifier : Qualifier} (h : Renders qualifier.scope) (events : List Event) :
    run qualifier events = .ok (events.foldl qualifier.feed {}).buffered :=
  Pass.foldlM_buffered h events (.start qualifier)

theorem rewrite_eq_ok {qualifier : Qualifier} (h : Renders qualifier.scope) (trees : Forest) :
    rewrite qualifier trees = .ok (qualifier.qualify trees) := by
  rw [rewrite, run_eq_ok h]
  rfl

/-- After any events the buffer of every open level agrees with its mode. -/
theorem exists_run_kept {qualifier : Qualifier} (h : Renders qualifier.scope)
    (events : List Event) :
    ∃ pass, run qualifier events = .ok pass ∧ ∀ level ∈ pass.levels, level.Kept := by
  have hreached := (Pass.Reached.start qualifier).foldl events
  refine ⟨_, run_eq_ok h events, ?_⟩
  intro level hmem
  rcases List.mem_cons.mp hmem with rfl | hmem
  · exact kept_buffered hreached.level.escaping
  · rw [Qualifier.Pass.buffered, List.map_map] at hmem
    obtain ⟨outer, houter, rfl⟩ := List.mem_map.mp hmem
    exact kept_buffered (hreached.enclosing outer houter).escaping

end Buffered

end Qualifier

end Qualify
