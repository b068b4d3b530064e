import Qualify.Qualifier

/-!
# One pass and recursion qualify alike

`Qualifier.qualify` is one pass over the events of a body with a stack of open
levels, and `Qualifier.level` is recursion on the trees. What ties them together is
`Level.completed`: the trees an open level comes to when the trees that are still to
be read are treated by recursion. Each event of the pass keeps it, so a whole group
puts the same trees out in both, whatever the stack around it holds.

## Main definitions

- `Qualifier.Reached` — the states a level can be in
- `Qualifier.Treated` — what can become of a token in such a state
-/

namespace Qualify

namespace Qualifier

/-! ### The stack -/

namespace Level

/-- What an open level comes to when `more` is still to be read on it. -/
def completed (qualifier : Qualifier) (level : Level) (more : Forest) : Forest :=
  level.out.reverse ++ qualifier.level level.state more

theorem finish_eq_completed (qualifier : Qualifier) (level : Level) :
    level.finish = level.completed qualifier [] := by
  simp [finish, flush, emit, completed, Qualifier.level]

theorem completed_feed (qualifier : Qualifier) (level : Level) (token : Token) (more : Forest) :
    (level.feed qualifier token).completed qualifier more =
      level.completed qualifier (.token token :: more) := by
  simp [feed, emit, completed, Qualifier.level]

/-- Taking in a group that was qualified on its own keeps what the level comes to. -/
theorem completed_emit_group (qualifier : Qualifier) (level : Level) (delimiter : Delimiter)
    (inner : Forest) (span : Span) (more : Forest) :
    (level.flush.emit (regroup delimiter (qualifier.level .normal inner) span)).completed
        qualifier more =
      level.completed qualifier (.group delimiter inner span :: more) := by
  simp [flush, emit, completed, Qualifier.level, Qualifier.group]

end Level

mutual

/-- The events of a tree leave the levels around untouched and keep what the
innermost level comes to. -/
theorem feed_tree (qualifier : Qualifier) :
    ∀ (tree : Tree) (level : Level) (enclosing : List (Delimiter × Span × Level)),
      ∃ after : Level,
        tree.events.foldl qualifier.feed ⟨level, enclosing⟩ = ⟨after, enclosing⟩ ∧
          ∀ more, after.completed qualifier more = level.completed qualifier (tree :: more)
  | .token token, level, enclosing => by
    refine ⟨level.feed qualifier token, ?_, ?_⟩
    · simp [Tree.events, feed]
    · intro more
      exact level.completed_feed qualifier token more
  | .group delimiter inner span, level, enclosing => by
    obtain ⟨last, hlast, hcompleted⟩ :=
      feed_forest qualifier inner {} ((delimiter, span, level.flush) :: enclosing)
    -- The level inside starts afresh, so what it finishes with is the recursion's own result.
    have hinner : last.finish = qualifier.level .normal inner := by
      rw [last.finish_eq_completed qualifier, hcompleted [], List.append_nil]
      rfl
    refine ⟨level.flush.emit (regroup delimiter last.finish span), ?_, ?_⟩
    · rw [Tree.events, List.foldl_cons, List.foldl_append]
      simp only [feed] at hlast ⊢
      rw [hlast]
      rfl
    · intro more
      rw [hinner]
      exact level.completed_emit_group qualifier delimiter inner span more

/-- The events of a forest leave the levels around untouched and keep what the
innermost level comes to. -/
theorem feed_forest (qualifier : Qualifier) :
    ∀ (trees : Forest) (level : Level) (enclosing : List (Delimiter × Span × Level)),
      ∃ after : Level,
        (Forest.events trees).foldl qualifier.feed ⟨level, enclosing⟩ = ⟨after, enclosing⟩ ∧
          ∀ more, after.completed qualifier more = level.completed qualifier (trees ++ more)
  | [], level, enclosing => ⟨level, rfl, fun _ => rfl⟩
  | tree :: rest, level, enclosing => by
    obtain ⟨middle, hmiddle, htree⟩ := feed_tree qualifier tree level enclosing
    obtain ⟨after, hafter, hrest⟩ := feed_forest qualifier rest middle enclosing
    refine ⟨after, ?_, ?_⟩
    · rw [Forest.events, List.foldl_append, hmiddle, hafter]
    · intro more
      rw [hrest more, htree (rest ++ more), List.cons_append]

end

/-- The pass with a stack of levels puts out what the recursion does. -/
theorem qualify_eq_level (qualifier : Qualifier) (trees : Forest) :
    qualifier.qualify trees = qualifier.level .normal trees := by
  obtain ⟨last, hlast, hcompleted⟩ := feed_forest qualifier trees {} []
  rw [qualify, hlast, last.finish_eq_completed qualifier, hcompleted [], List.append_nil]
  rfl

/-! ### Tokens -/

/-- The states a level can be in: every level starts afresh, and each token leads on. -/
inductive Reached (qualifier : Qualifier) : State → Prop
  | start : Reached qualifier .normal
  | step {state : State} (token : Token) (reached : Reached qualifier state) :
      Reached qualifier (qualifier.step state token).state

/-- What can become of a token: it comes out as it is, behind what was held back or
held back itself; a bound name in the state `normal` gives way to its path; and
behind a `$` that is held back a `$`, a name or a lifetime is namespaced. -/
inductive Treated (qualifier : Qualifier) : State → Token → Step → Prop
  | kept {state : State} {token : Token} {step : Step}
      (same : step.out ++ step.state.held = state.held ++ [.token token]) :
      Treated qualifier state token step
  | substituted {ident : Ident} {binding : Binding}
      (bound : qualifier.scope.lookup? ident.text = some binding) :
      Treated qualifier .normal (.ident ident) ⟨binding.path.trees, .normal⟩
  | dollar {held mark : Punct} (on : qualifier.root.isSome = true) (dollar : mark.text = "$") :
      Treated qualifier (.dollar held) (.punct mark) ⟨[.punct mark], .normal⟩
  | name {held : Punct} {ident : Ident} {root : String} (on : qualifier.root = some root) :
      Treated qualifier (.dollar held) (.ident ident)
        ⟨[.ident { ident with text := root ++ ident.text }], .normal⟩
  | lifetime {held tick : Punct} {ident : Ident} {root : String}
      (on : qualifier.root = some root) :
      Treated qualifier (.dollarTick held tick) (.ident ident)
        ⟨[.punct { tick with text := "'", spacing := .joint },
          .ident { ident with text := root ++ ident.text }], .normal⟩

theorem held_afterPunct {state : State} {mark : Punct} (h : state.held = []) :
    (state.afterPunct mark).held = [] := by
  rw [State.afterPunct]
  split
  · split
    · rfl
    · exact h
  split
  · rfl
  split <;> rfl

theorem held_plain (scope : Scope) {state : State} (token : Token) (h : state.held = []) :
    (plain scope state token).state.held = [] := by
  unfold plain
  split
  · rfl
  · rfl
  · rfl
  · exact held_afterPunct h
  · rfl

/-- A token other than an identifier passes the plain step as it is. -/
theorem out_plain_of_ident?_eq_none (scope : Scope) (state : State) {token : Token}
    (h : (Tree.token token).ident? = none) : (plain scope state token).out = [.token token] := by
  unfold plain
  split
  · rfl
  · cases h
  · cases h
  · rfl
  · rfl

/-- An identifier that is not bare passes the plain step as it is. -/
theorem plain_ident_of_ne_normal (scope : Scope) {state : State} (ident : Ident)
    (h : state ≠ .normal) : plain scope state (.ident ident) = ⟨[.ident ident], .normal⟩ := by
  cases state with
  | normal => exact absurd rfl h
  | afterColon | afterPound | afterTick | dollar | dollarTick => rfl

theorem plain_punct_of_ne_afterPound (scope : Scope) {state : State} (mark : Punct)
    (h : state ≠ .afterPound) :
    plain scope state (.punct mark) = ⟨[.punct mark], state.afterPunct mark⟩ := by
  cases state with
  | afterPound => exact absurd rfl h
  | normal | afterColon | afterTick | dollar | dollarTick => rfl

/-- Where nothing is held back, a token keeps its place or is substituted. -/
theorem treated_plain (qualifier : Qualifier) {state : State} (token : Token)
    (h : state.held = []) :
    Treated qualifier state token (plain qualifier.scope state token) := by
  have hheld := held_plain qualifier.scope token h
  by_cases hident : (Tree.token token).ident? = none
  · refine .kept ?_
    rw [out_plain_of_ident?_eq_none _ _ hident, hheld, h]
    rfl
  · cases token with
    | punct mark => exact absurd rfl hident
    | literal literal => exact absurd rfl hident
    | ident ident =>
      by_cases hstate : state = .normal
      · subst hstate
        cases hlookup : qualifier.scope.lookup? ident.text with
        | some binding =>
          have hplain : plain qualifier.scope .normal (.ident ident) =
              ⟨binding.path.trees, .normal⟩ := by
            simp [plain, substitute, hlookup]
          rw [hplain]
          exact .substituted hlookup
        | none =>
          refine .kept ?_
          simp [plain, substitute, hlookup, State.held]
      · refine .kept ?_
        rw [plain_ident_of_ne_normal _ _ hstate, h]
        rfl

/-- What was held back comes out in front of a token that is not an identifier. -/
theorem treated_release (qualifier : Qualifier) {state : State} {token : Token}
    (h : (Tree.token token).ident? = none) :
    Treated qualifier state token (release qualifier.scope state.held token) := by
  refine .kept ?_
  have hnormal : State.normal.held = [] := rfl
  have hheld := held_plain qualifier.scope token hnormal
  simp only [release, out_plain_of_ident?_eq_none _ _ h, hheld, List.append_nil]

theorem treated_punct (qualifier : Qualifier) {state : State} (mark : Punct)
    (h : state.held = []) :
    Treated qualifier state (.punct mark)
      (if mark.text = "$" then ⟨[], .dollar mark⟩ else plain qualifier.scope state (.punct mark)) := by
  split
  · refine .kept ?_
    rw [h]
    rfl
  · exact treated_plain qualifier _ h

/-- With namespacing on, a token keeps its place, is substituted or is namespaced. -/
theorem treated_namespacing (qualifier : Qualifier) {root : String} (state : State) (token : Token)
    (hroot : qualifier.root = some root) :
    Treated qualifier state token (namespacing qualifier.scope root state token) := by
  cases state with
  | dollar held =>
    cases token with
    | ident ident => exact .name hroot
    | literal literal => exact treated_release qualifier rfl
    | punct mark =>
      rw [namespacing]
      split
      · next hdollar => exact .dollar (by rw [hroot]; rfl) hdollar
      split
      · exact .kept rfl
      · exact treated_release qualifier rfl
  | dollarTick held tick =>
    cases token with
    | ident ident => exact .lifetime hroot
    | punct mark => exact treated_release qualifier rfl
    | literal literal => exact treated_release qualifier rfl
  | afterPound => exact treated_plain qualifier token rfl
  | normal =>
    cases token with
    | punct mark => exact treated_punct qualifier mark rfl
    | ident ident => exact treated_plain qualifier _ rfl
    | literal literal => exact treated_plain qualifier _ rfl
  | afterColon =>
    cases token with
    | punct mark => exact treated_punct qualifier mark rfl
    | ident ident => exact treated_plain qualifier _ rfl
    | literal literal => exact treated_plain qualifier _ rfl
  | afterTick =>
    cases token with
    | punct mark => exact treated_punct qualifier mark rfl
    | ident ident => exact treated_plain qualifier _ rfl
    | literal literal => exact treated_plain qualifier _ rfl

/-- With namespacing off nothing is ever held back. -/
theorem Reached.held_eq_nil {qualifier : Qualifier} {state : State}
    (h : qualifier.Reached state) (hroot : qualifier.root = none) : state.held = [] := by
  induction h with
  | start => rfl
  | step token _ ih =>
    rw [Qualifier.step, hroot]
    exact held_plain qualifier.scope token ih

/-- In every state a level can be in, a token keeps its place, is substituted or is
namespaced. -/
theorem Reached.treated {qualifier : Qualifier} {state : State} (h : qualifier.Reached state)
    (token : Token) : Treated qualifier state token (qualifier.step state token) := by
  rw [Qualifier.step]
  cases hroot : qualifier.root with
  | none => exact treated_plain qualifier token (h.held_eq_nil hroot)
  | some root => exact treated_namespacing qualifier state token hroot

/-- The pass with a stack of levels is recursion on the trees: a level is scanned from
the state `normal` on, each token takes its step, a group is qualified on its own
behind what was held back and the level goes on from `normal`, and what is held back
at the end of a level comes out there. A token that is neither substituted nor
namespaced comes out as it is. -/
theorem qualify_refines_recursion (qualifier : Qualifier) :
    (∀ trees, qualifier.qualify trees = qualifier.level .normal trees) ∧
    (∀ state, qualifier.level state [] = state.held) ∧
    (∀ state token rest, qualifier.level state (.token token :: rest) =
      (qualifier.step state token).out ++
        qualifier.level (qualifier.step state token).state rest) ∧
    (∀ state delimiter inner span rest,
      qualifier.level state (.group delimiter inner span :: rest) =
        state.held ++
          ((if delimiter = .invisible then qualifier.qualify inner
            else [.group delimiter (qualifier.qualify inner) span]) ++
              qualifier.level .normal rest)) ∧
    ∀ state token, qualifier.Reached state →
      Treated qualifier state token (qualifier.step state token) := by
  refine ⟨qualify_eq_level qualifier, ?_, ?_, ?_, fun state token h => h.treated token⟩
  · intro state
    rw [level]
  · intro state token rest
    rw [level]
  · intro state delimiter inner span rest
    rw [level, group, regroup, qualify_eq_level]

/-- Behind a `$` that is held back a name is namespaced, and a group is not touched by
what was held back in front of it. -/
theorem qualify_refines_recursion_dollar :
    let qualifier : Qualifier := ⟨⟨[], []⟩, some "n_"⟩
    let held : Punct := { text := "$" }
    let name : Ident := { text := "x" }
    qualifier.Reached (.dollar held) ∧
      Treated qualifier (.dollar held) (.ident name)
        (qualifier.step (.dollar held) (.ident name)) ∧
      qualifier.qualify [.punct held, .group .invisible [.ident name] {}] =
        [.punct held, .ident name] := by
  intro qualifier held name
  have hreached : qualifier.Reached (.dollar held) := .step (.punct held) .start
  obtain ⟨hpass, -, -, -, htreated⟩ := qualify_refines_recursion qualifier
  refine ⟨hreached, htreated (.dollar held) (.ident name) hreached, ?_⟩
  rw [hpass]
  decide

end Qualifier

end Qualify
