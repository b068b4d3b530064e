import Qualify.Scope

/-!
# Qualifying names

A `Qualifier` replaces the bare identifiers of a body that are bound in a scope
by the paths they stand for. On each level a small automaton decides what is
bare: an identifier after a joint `:` belongs to a path that is qualified
already, the token after a `#` is spliced in later and passes untouched, and an
identifier after a joint tick is the name of a lifetime. With namespacing on,
`$name` and `$'name` become names under the namespace root and `$$` becomes `$`;
the `$`, and the tick after it, are held back until the next token decides.

## Main definitions

- `Qualifier.step` — what one token of a level puts out, and the state after it
- `Qualifier.qualify` — one pass over the events of a body with a stack of open
  levels
- `Qualifier.level` — the same by recursion on the trees

## Design notes

Levels do not see each other: a group is treated on its own, starting afresh,
and the level around it goes on afresh after it. An invisible group gives way to
its contents. What is held back is part of the state, so that nothing can be held
back where no `$` came before.
-/

namespace Qualify

/-- What the tokens of a level that came before mean for the next one. -/
inductive State where
  | normal
  /-- After a joint `:`, possibly followed by further colons. -/
  | afterColon
  /-- After a `#` that is not itself passed through by one. -/
  | afterPound
  /-- After a joint tick. -/
  | afterTick
  /-- A `$` is held back. -/
  | dollar (held : Punct)
  /-- A `$` and the tick after it are held back. -/
  | dollarTick (held tick : Punct)
deriving DecidableEq, Repr

namespace State

/-- The tokens that are held back. -/
def held : State → Forest
  | dollar held => [.punct held]
  | dollarTick held tick => [.punct held, .punct tick]
  | _ => []

/-- The state after a mark that passes through. A colon that is not joint keeps
the state, be it the second of `::` or one on its own. -/
def afterPunct (state : State) (mark : Punct) : State :=
  if mark.text = ":" then
    match mark.spacing with
    | .joint => afterColon
    | .alone => state
  else if mark.text = "#" then afterPound
  else if mark.text = "'" && mark.spacing = .joint then afterTick
  else normal

end State

/-- The trees put out for a token, and the state after it. -/
structure Step where
  out : Forest
  state : State
deriving DecidableEq, Repr

/-- What identifiers are replaced by. The namespace root is absent when
namespacing is off. -/
structure Qualifier where
  scope : Scope
  root : Option String
deriving DecidableEq, Repr

namespace Qualifier

/-- The qualifier of a scope under a configuration. -/
def ofScope (scope : Scope) (config : Config) : Qualifier where
  scope
  root := if config.namespacing then some config.namespaceRoot else none

/-- The trees a bare identifier is replaced by. -/
def substitute (scope : Scope) (ident : Ident) : Forest :=
  match scope.lookup? ident.text with
  | some binding => binding.path.trees
  | none => [.ident ident]

/-- The step of a token where `$` has no meaning. -/
def plain (scope : Scope) : State → Token → Step
  | .afterPound, token => ⟨[.token token], .normal⟩
  | .normal, .ident ident => ⟨substitute scope ident, .normal⟩
  | _, .ident ident => ⟨[.ident ident], .normal⟩
  | state, .punct mark => ⟨[.punct mark], state.afterPunct mark⟩
  | _, .literal literal => ⟨[.literal literal], .normal⟩

/-- Let go of what was held back and give a token its plain step. -/
def release (scope : Scope) (held : Forest) (token : Token) : Step :=
  let step := plain scope .normal token
  { step with out := held ++ step.out }

/-- The step of a token under the namespace root `root`. -/
def namespacing (scope : Scope) (root : String) : State → Token → Step
  | .dollar _, .ident ident => ⟨[.ident { ident with text := root ++ ident.text }], .normal⟩
  | .dollar held, .punct mark =>
    if mark.text = "$" then ⟨[.punct mark], .normal⟩
    else if mark.text = "'" then ⟨[], .dollarTick held mark⟩
    else release scope [.punct held] (.punct mark)
  | .dollar held, token => release scope [.punct held] token
  | .dollarTick _ tick, .ident ident =>
    ⟨[.punct { tick with text := "'", spacing := .joint },
      .ident { ident with text := root ++ ident.text }], .normal⟩
  | .dollarTick held tick, token => release scope [.punct held, .punct tick] token
  | .afterPound, token => plain scope .afterPound token
  | state, .punct mark =>
    if mark.text = "$" then ⟨[], .dollar mark⟩ else plain scope state (.punct mark)
  | state, token => plain scope state token

/-- The step of a token. -/
def step (qualifier : Qualifier) : State → Token → Step :=
  match qualifier.root with
  | none => plain qualifier.scope
  | some root => namespacing qualifier.scope root

/-! ### One pass with a stack of levels -/

/-- A level that is being qualified: its state and the trees put out so far, last
one first. -/
structure Level where
  state : State := .normal
  out : List Tree := []
deriving DecidableEq, Repr

namespace Level

/-- Put out trees. -/
def emit (level : Level) (trees : Forest) : Level :=
  { level with out := trees.reverse ++ level.out }

/-- Let go of what is held back and start afresh. -/
def flush (level : Level) : Level :=
  { level.emit level.state.held with state := .normal }

/-- Take in a token. -/
def feed (qualifier : Qualifier) (level : Level) (token : Token) : Level :=
  let step := qualifier.step level.state token
  { level.emit step.out with state := step.state }

/-- The trees of a level that has ended. -/
def finish (level : Level) : Forest := level.flush.out.reverse

end Level

/-- The innermost open level and the levels around it, innermost first, each with
the delimiter and the place of the group that is open in it. -/
structure Pass where
  level : Level := {}
  enclosing : List (Delimiter × Span × Level) := []
deriving DecidableEq, Repr

/-- A group with new contents; an invisible one gives way to its contents. -/
def regroup (delimiter : Delimiter) (inner : Forest) (span : Span) : Forest :=
  if delimiter = .invisible then inner else [.group delimiter inner span]

/-- Take in an event. -/
def feed (qualifier : Qualifier) (pass : Pass) : Event → Pass
  | .token token => { pass with level := pass.level.feed qualifier token }
  | .opening delimiter span => ⟨{}, (delimiter, span, pass.level.flush) :: pass.enclosing⟩
  | .closing _ =>
    match pass.enclosing with
    | [] => pass
    | (delimiter, span, outer) :: enclosing =>
      ⟨outer.emit (regroup delimiter pass.level.finish span), enclosing⟩

/-- Qualify the names of a body. -/
def qualify (qualifier : Qualifier) (trees : Forest) : Forest :=
  (trees.events.foldl qualifier.feed {}).level.finish

/-! ### The same by recursion -/

mutual

/-- Qualify the names of a level from a state on. -/
def level (qualifier : Qualifier) (state : State) : Forest → Forest
  | [] => state.held
  | tree :: rest =>
    match tree with
    | .token token =>
      let step := qualifier.step state token
      step.out ++ qualifier.level step.state rest
    | .group .. => state.held ++ (qualifier.group tree ++ qualifier.level .normal rest)

/-- Qualify the names of a group on its own. -/
def group (qualifier : Qualifier) : Tree → Forest
  | .token token => [.token token]
  | .group delimiter inner span => regroup delimiter (qualifier.level .normal inner) span

end

end Qualifier

end Qualify
