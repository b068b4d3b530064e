import Qualify.Proofs.Qualifier.Recursion

/-!
# Places play no part in qualifying

Trees that differ in nothing but their places are qualified alike, and a scope counts by
its bindings without theirs. Leaving out the places is an operation on every value a
qualifier touches, and each of its functions commutes with it, from the trees of a path
(`Path.bare_trees`) over the step of a token (`Qualifier.bare_step`) up to a whole body
(`Qualifier.bare_qualify`).

## Main definitions

- `Qualifier.bare` — a qualifier whose bindings have no places
-/

namespace Qualify

namespace Forest

theorem bare_eq_map (trees : Forest) : trees.bare = trees.map Tree.bare := by
  induction trees with
  | nil => rfl
  | cons tree trees ih => rw [bare, ih, List.map_cons]

@[simp] theorem bare_append (front back : Forest) :
    Forest.bare (front ++ back) = Forest.bare front ++ Forest.bare back := by
  simp only [bare_eq_map, List.map_append]

end Forest

mutual

theorem Tree.bare_bare : (tree : Tree) → tree.bare.bare = tree.bare
  | .token value => by cases value <;> rfl
  | .group delimiter inner span => by simp only [Tree.bare, Forest.bare_bare inner]

theorem Forest.bare_bare : (trees : Forest) → Forest.bare trees.bare = trees.bare
  | [] => rfl
  | tree :: rest => by simp only [Forest.bare, Tree.bare_bare tree, Forest.bare_bare rest]

end

/-! ### Paths and scopes -/

theorem Segment.bare_bare (segment : Segment) : segment.bare.bare = segment.bare := by
  cases segment with
  | name ident => rfl
  | placeholder marker tree => simp only [bare, tree.bare_bare]

theorem Binding.bare_bare (binding : Binding) : binding.bare.bare = binding.bare := by
  have hsegments : Segment.bare ∘ Segment.bare = Segment.bare := funext Segment.bare_bare
  simp only [bare, Path.bare, List.map_map, hsegments]

@[simp] theorem Binding.isSwitch_bare (binding : Binding) (name : String) :
    binding.bare.isSwitch name = binding.isSwitch name := by
  obtain ⟨ident, path⟩ := binding
  match path with
  | [] => rfl
  | [.name _] => rfl
  | [.placeholder ..] => rfl
  | .name _ :: _ :: _ => rfl
  | .placeholder .. :: _ :: _ => rfl

@[simp] theorem Segment.isPlaceholder_bare (segment : Segment) :
    segment.bare.isPlaceholder = segment.isPlaceholder := by
  cases segment <;> rfl

theorem Segment.bare_trees (segment : Segment) : Forest.bare segment.trees = segment.bare.trees := by
  cases segment <;> rfl

theorem Segment.bare_rooted (segment : Segment) :
    Forest.bare segment.rooted = segment.bare.rooted := by
  rw [rooted, rooted, Segment.isPlaceholder_bare, ← segment.bare_trees]
  rfl

theorem Path.bare_trees (path : Path) : Forest.bare path.trees = path.bare.trees := by
  have hrest (rest : Path) :
      Forest.bare (rest.flatMap Segment.rooted) = (Path.bare rest).flatMap Segment.rooted := by
    induction rest with
    | nil => rfl
    | cons segment rest ih =>
      rw [List.flatMap_cons, Forest.bare_append, ih, segment.bare_rooted]
      rfl
  cases path with
  | nil => rfl
  | cons first rest =>
    rw [trees, Forest.bare_append, hrest, apply_ite Forest.bare, first.bare_trees, first.bare_rooted]
    simp only [Path.bare, List.map_cons, trees, Segment.isPlaceholder_bare]

/-- A scope without any place. -/
def Scope.bare (scope : Scope) : Scope :=
  ⟨scope.declared.map Binding.bare, scope.prelude.map Binding.bare⟩

theorem Scope.all_bare (scope : Scope) : scope.bare.all = scope.all.map Binding.bare :=
  List.map_append.symm

theorem Scope.lookup?_bare (scope : Scope) (name : String) :
    scope.bare.lookup? name = (scope.lookup? name).map Binding.bare := by
  rw [lookup?, all_bare, List.find?_map, lookup?]
  rfl

/-- Where declarations stand does not matter for their scope. -/
theorem Scope.bare_ofBindings (bindings : List Binding) (config : Config) :
    (ofBindings (bindings.map Binding.bare) config).bare = (ofBindings bindings config).bare := by
  have hbare : Binding.bare ∘ Binding.bare = Binding.bare := funext Binding.bare_bare
  have hswitch (name : String) : Binding.isSwitch name ∘ Binding.bare = Binding.isSwitch name :=
    funext fun binding => binding.isSwitch_bare name
  have hdeclared : (Declared.ofBindings (bindings.map Binding.bare)).bindings =
      (Declared.ofBindings bindings).bindings.map Binding.bare := by
    simp only [Declared.ofBindings, List.filter_map, Function.comp_def, Binding.isSwitch_bare]
  have hprelude : (ofBindings (bindings.map Binding.bare) config).prelude =
      (ofBindings bindings config).prelude := by
    simp only [ofBindings, Declared.ofBindings, List.any_map, hswitch]
    rfl
  rw [Scope.bare, Scope.bare, hprelude]
  refine congrArg (Scope.mk · _) ?_
  rw [ofBindings, hdeclared, List.map_map, hbare]
  rfl

/-! ### Tokens -/

/-- A state without the places of what is held back. -/
def State.bare : State → State
  | dollar held => dollar { held with span := {} }
  | dollarTick held tick => dollarTick { held with span := {} } { tick with span := {} }
  | state => state

theorem State.bare_held (state : State) : Forest.bare state.held = state.bare.held := by
  cases state <;> rfl

theorem State.bare_afterPunct (state : State) (mark : Punct) :
    (state.afterPunct mark).bare = state.bare.afterPunct { mark with span := {} } := by
  simp only [afterPunct]
  by_cases hcolon : mark.text = ":"
  · simp only [if_pos hcolon]
    cases mark.spacing <;> rfl
  · simp only [if_neg hcolon, apply_ite State.bare]
    rfl

/-- A step without any place. -/
def Step.bare (step : Step) : Step := ⟨Forest.bare step.out, step.state.bare⟩

namespace Qualifier

/-- A qualifier whose bindings have no places. -/
def bare (qualifier : Qualifier) : Qualifier := ⟨qualifier.scope.bare, qualifier.root⟩

theorem bare_substitute (scope : Scope) (ident : Ident) :
    Forest.bare (substitute scope ident) = substitute scope.bare { ident with span := {} } := by
  rw [substitute, substitute, scope.lookup?_bare]
  cases scope.lookup? ident.text with
  | none => rfl
  | some binding => exact Path.bare_trees binding.path

theorem bare_plain (scope : Scope) (state : State) (token : Token) :
    (plain scope state token).bare = plain scope.bare state.bare token.bare := by
  cases token with
  | ident ident =>
    cases state with
    | normal => exact congrArg (Step.mk · .normal) (bare_substitute scope ident)
    | afterColon | afterPound | afterTick | dollar | dollarTick => rfl
  | punct mark =>
    have hafter := state.bare_afterPunct mark
    cases state with
    | afterPound => rfl
    | normal | afterColon | afterTick | dollar | dollarTick =>
      exact congrArg (Step.mk [.punct { mark with span := {} }]) hafter
  | literal literal => cases state <;> rfl

theorem bare_release (scope : Scope) (held : Forest) (token : Token) :
    (release scope held token).bare = release scope.bare (Forest.bare held) token.bare := by
  have hplain := bare_plain scope .normal token
  rw [release, release, Step.bare, Forest.bare_append]
  exact congrArg (fun step : Step => { step with out := Forest.bare held ++ step.out }) hplain

theorem bare_namespacing (scope : Scope) (root : String) (state : State) (token : Token) :
    (namespacing scope root state token).bare = namespacing scope.bare root state.bare token.bare := by
  cases state with
  | dollar held =>
    cases token with
    | ident ident => rfl
    | literal literal => exact bare_release scope _ _
    | punct mark =>
      simp only [namespacing, apply_ite Step.bare, bare_release]
      rfl
  | dollarTick held tick =>
    cases token with
    | ident ident => rfl
    | literal literal => exact bare_release scope _ _
    | punct mark => exact bare_release scope _ _
  | afterPound => exact bare_plain scope .afterPound token
  | normal | afterColon | afterTick =>
    cases token with
    | ident ident => exact bare_plain scope _ _
    | literal literal => exact bare_plain scope _ _
    | punct mark =>
      simp only [namespacing, apply_ite Step.bare, bare_plain]
      rfl

theorem bare_step (qualifier : Qualifier) (state : State) (token : Token) :
    (qualifier.step state token).bare = qualifier.bare.step state.bare token.bare := by
  obtain ⟨scope, root⟩ := qualifier
  cases root with
  | none => exact bare_plain scope state token
  | some root => exact bare_namespacing scope root state token

/-! ### Trees -/

theorem bare_regroup (delimiter : Delimiter) (inner : Forest) (span : Span) :
    Forest.bare (regroup delimiter inner span) = regroup delimiter (Forest.bare inner) {} := by
  rw [regroup, regroup, apply_ite Forest.bare]
  rfl

mutual

theorem bare_level (qualifier : Qualifier) : (trees : Forest) → (state : State) →
    Forest.bare (qualifier.level state trees) = qualifier.bare.level state.bare (Forest.bare trees)
  | [], state => by
    rw [level, Forest.bare, level]
    exact state.bare_held
  | .token token :: rest, state => by
    have hstep := bare_step qualifier state token
    rw [level, Forest.bare_append, bare_level qualifier rest, Forest.bare, Tree.bare, level, ← hstep]
    rfl
  | .group delimiter inner span :: rest, state => by
    rw [level, Forest.bare_append, Forest.bare_append, bare_level qualifier rest, state.bare_held,
      bare_group qualifier (.group delimiter inner span), Forest.bare, Tree.bare, level]
    rfl

theorem bare_group (qualifier : Qualifier) : (tree : Tree) →
    Forest.bare (qualifier.group tree) = qualifier.bare.group tree.bare
  | .token token => rfl
  | .group delimiter inner span => by
    rw [group, bare_regroup, bare_level qualifier inner, Tree.bare, group]
    rfl

end

/-- A body without its places is qualified alike. -/
theorem bare_qualify (qualifier : Qualifier) (trees : Forest) :
    Forest.bare (qualifier.qualify trees) = qualifier.bare.qualify (Forest.bare trees) := by
  rw [qualify_eq_level, qualify_eq_level]
  exact bare_level qualifier trees .normal

end Qualifier

end Qualify
