import Qualify.Tree.Lex
import Qualify.Proofs.Piece.Cut

/-!
# Matching delimiters

The events that pieces stand for are the flat view of the trees read from them.
`Event.nest` matches the ends of groups among events with the same stack that
`Forest.nest` keeps among pieces. Two facts describe it: what was read so far never
changes (`flat_of_nest`), and the events of a level rebuild that level
(`nest_events_append`). Together they say when a text is read and as what: it can be
cut into pieces, and the events of the pieces are those of the trees
(`lex_eq_ok_iff`).

## Main definitions

- `Piece.events` — the events that pieces stand for
- `Event.nest` — delimiters matched among events
- `Event.bare` — an event without its place
-/

namespace Qualify

/-! ### The events of pieces -/

/-- The events that a piece stands for, given the piece after it. -/
def Piece.flat (file : Option String) (piece : Piece) (next : Option Piece) : List Event :=
  match piece.terminal with
  | .opener delimiter => [.opening delimiter (piece.span file)]
  | .closer delimiter => [.closing delimiter]
  | _ => (piece.tokens file next).map .token

/-- The events that pieces stand for. -/
def Piece.events (file : Option String) : List Piece → List Event
  | [] => []
  | piece :: rest => piece.flat file rest.head? ++ events file rest

namespace Event

/-- Match the ends of groups. The two arguments in front are the open groups and the
innermost level, last tree first. A closing end that does not close the innermost
open group stops it. -/
def nest : List OpenGroup → List Tree → List Event → Option (List OpenGroup × List Tree)
  | enclosing, level, [] => some (enclosing, level)
  | enclosing, level, .token value :: rest => nest enclosing (.token value :: level) rest
  | enclosing, level, .opening delimiter span :: rest =>
    nest (⟨delimiter, span, level⟩ :: enclosing) [] rest
  | [], _, .closing _ :: _ => none
  | group :: outer, level, .closing delimiter :: rest =>
    if group.delimiter = delimiter then
      nest outer (.group delimiter level.reverse group.span :: group.outer) rest
    else none

theorem nest_tokens (enclosing : List OpenGroup) (level : List Tree) (tokens : List Token)
    (rest : List Event) :
    nest enclosing level (tokens.map Event.token ++ rest) =
      nest enclosing ((tokens.map Tree.token).reverse ++ level) rest := by
  induction tokens generalizing level with
  | nil => rfl
  | cons value tokens ih =>
    rw [List.map_cons, List.cons_append, nest, ih, List.map_cons, List.reverse_cons,
      List.append_assoc]
    rfl

end Event

/-- Matching the delimiters of pieces is matching the ends among their events. -/
theorem Forest.toOption_nest (file : Option String) (enclosing : List OpenGroup)
    (level : List Tree) (pieces : List Piece) :
    (Forest.nest file enclosing level pieces).toOption =
      Event.nest enclosing level (Piece.events file pieces) := by
  induction pieces generalizing enclosing level with
  | nil => rfl
  | cons piece rest ih =>
    rw [Piece.events, Piece.flat]
    rw [Forest.nest]
    cases hterminal : piece.terminal with
    | opener delimiter => exact ih _ _
    | closer delimiter =>
      cases enclosing with
      | nil => rfl
      | cons group outer =>
        simp only [List.cons_append, List.nil_append, Event.nest]
        split
        · exact ih _ _
        · rfl
    | _ => simp only [ih, Event.nest_tokens]

/-! ### The events of levels -/

namespace Event

/-- The events read so far: those of the open levels, from the outermost inwards. -/
def flat : List OpenGroup → List Tree → List Event
  | [], level => Forest.events level.reverse
  | group :: outer, level =>
    flat outer group.outer ++ .opening group.delimiter group.span :: Forest.events level.reverse

end Event

theorem Forest.events_append (trees others : Forest) :
    Forest.events (trees ++ others) = Forest.events trees ++ Forest.events others := by
  induction trees with
  | nil => rfl
  | cons tree rest ih => rw [List.cons_append, Forest.events, Forest.events, ih, List.append_assoc]

theorem Forest.events_singleton (tree : Tree) : Forest.events [tree] = tree.events := by
  rw [Forest.events, Forest.events, List.append_nil]

namespace Event

/-- A tree put on the innermost level adds its events at the end. -/
theorem flat_cons (enclosing : List OpenGroup) (level : List Tree) (tree : Tree) :
    flat enclosing (tree :: level) = flat enclosing level ++ tree.events := by
  cases enclosing with
  | nil => rw [flat, flat, List.reverse_cons, Forest.events_append, Forest.events_singleton]
  | cons group outer =>
    rw [flat, flat, List.reverse_cons, Forest.events_append, Forest.events_singleton,
      List.append_assoc, List.cons_append]

/-- Matching delimiters keeps every event that was read, in order. -/
theorem flat_of_nest {enclosing enclosing' : List OpenGroup} {level level' : List Tree}
    {events : List Event} (h : nest enclosing level events = some (enclosing', level')) :
    flat enclosing' level' = flat enclosing level ++ events := by
  fun_induction nest enclosing level events with
  | case1 enclosing level =>
    cases h
    rw [List.append_nil]
  | case2 enclosing level value rest ih =>
    rw [ih h, flat_cons, Tree.events, List.append_assoc]
    rfl
  | case3 enclosing level delimiter span rest ih =>
    rw [ih h, flat, List.reverse_nil, Forest.events, List.append_assoc]
    rfl
  | case4 => cases h
  | case5 level rest group outer ih =>
    -- A closed group moves from the stack to the level around it.
    rw [ih h, flat_cons, flat, Tree.events]
    simp only [List.append_assoc, List.cons_append, List.nil_append]
  | case6 => cases h

mutual

/-- The events of a tree put that tree on the innermost level. -/
theorem nest_tree_append (enclosing : List OpenGroup) (level : List Tree) (rest : List Event) :
    (tree : Tree) → nest enclosing level (tree.events ++ rest) = nest enclosing (tree :: level) rest
  | .token value => by rw [Tree.events, List.cons_append, List.nil_append, nest]
  | .group delimiter inner span => by
    rw [Tree.events, List.cons_append, nest, List.append_assoc, nest_events_append _ _ _ inner,
      List.cons_append, nest, if_pos rfl, List.append_nil, List.reverse_reverse, List.nil_append]

/-- The events of a level put its trees on the innermost level. -/
theorem nest_events_append (enclosing : List OpenGroup) (level : List Tree) (rest : List Event) :
    (trees : Forest) → nest enclosing level (Forest.events trees ++ rest) =
      nest enclosing (trees.reverse ++ level) rest
  | [] => rfl
  | tree :: trees => by
    rw [Forest.events, List.append_assoc, nest_tree_append _ _ _ tree,
      nest_events_append _ _ _ trees, List.reverse_cons, List.append_assoc]
    rfl

end

/-- Matching delimiters from the start ends outside of all groups exactly when the
events are those of a level. -/
theorem nest_eq_some_nil_iff {events : List Event} {level : List Tree} :
    nest [] [] events = some ([], level) ↔ Forest.events level.reverse = events := by
  constructor
  · intro h
    exact flat_of_nest h
  · rintro rfl
    have h := nest_events_append [] [] [] level.reverse
    rw [List.append_nil, List.append_nil, List.reverse_reverse] at h
    exact h

end Event

theorem eq_ok_of_toOption {ε α : Type} {result : Except ε α} {value : α}
    (h : result.toOption = some value) : result = .ok value := by
  cases result with
  | error error => cases h
  | ok found => rw [Option.some.inj h]

/-- A text is read as some trees exactly when it can be cut into pieces whose events
are those of the trees. -/
theorem Forest.lex_eq_ok_iff {file : Option String} {source : String} {trees : Forest} :
    Forest.lex file source = .ok trees ↔
      ∃ pieces, Piece.Cut {} source.toList pieces ∧
        Piece.events file pieces = Forest.events trees := by
  have hnest := Forest.toOption_nest file [] []
  constructor
  · intro h
    -- Of the ways to end, only a text that was cut and closed leaves trees.
    rw [Forest.lex] at h
    cases hscan : Piece.scan source.toList with
    | mk pieces stuck =>
      rw [hscan] at h
      have hpieces := hnest pieces
      dsimp only at h
      split at h
      · cases h
      · next enclosing level hok =>
        rw [hok] at hpieces
        split at h
        · cases h
        · cases h
        · cases h
          refine ⟨pieces, Piece.scanFrom_eq_iff_cut.mp hscan, ?_⟩
          exact (Event.nest_eq_some_nil_iff.mp hpieces.symm).symm
  · rintro ⟨pieces, hcut, hevents⟩
    have hscan : Piece.scan source.toList = ⟨pieces, none⟩ := Piece.scanFrom_eq_iff_cut.mpr hcut
    have hpieces := hnest pieces
    rw [hevents, ← List.reverse_reverse trees, Event.nest_eq_some_nil_iff.mpr rfl] at hpieces
    rw [Forest.lex]
    rw [hscan]
    cases hlevel : Forest.nest file [] [] pieces with
    | error error =>
      rw [hlevel] at hpieces
      cases hpieces
    | ok read =>
      rw [hlevel] at hpieces
      cases hpieces
      simp only [List.reverse_reverse]

/-! ### Events without places -/

/-- An event without its place. -/
def Event.bare : Event → Event
  | .token value => .token value.bare
  | .opening delimiter _ => .opening delimiter {}
  | .closing delimiter => .closing delimiter

mutual

theorem Tree.events_bare : (tree : Tree) → tree.bare.events = tree.events.map Event.bare
  | .token value => rfl
  | .group delimiter inner span => by
    rw [Tree.bare, Tree.events, Tree.events, Forest.events_bare inner, List.map_cons,
      List.map_append]
    rfl

/-- The events of a level without places are its events without places. -/
theorem Forest.events_bare :
    (trees : Forest) → Forest.events trees.bare = (Forest.events trees).map Event.bare
  | [] => rfl
  | tree :: trees => by
    rw [Forest.bare, Forest.events, Forest.events, Tree.events_bare tree,
      Forest.events_bare trees, List.map_append]

end

mutual

theorem Tree.exists_of_bare_events : (tree : Tree) → {events : List Event} →
    events.map Event.bare = tree.events → ∃ found : Tree, found.events = events ∧ found.bare = tree
  | .token value, events, h => by
    rw [Tree.events, List.map_eq_singleton_iff] at h
    obtain ⟨event, rfl, hevent⟩ := h
    cases event with
    | token placed =>
      cases hevent
      exact ⟨.token placed, rfl, rfl⟩
    | _ => cases hevent
  | .group delimiter inner span, events, h => by
    rw [Tree.events, List.map_eq_cons_iff] at h
    obtain ⟨event, rest, rfl, hevent, hrest⟩ := h
    obtain ⟨middle, last, rfl, hmiddle, hlast⟩ := List.map_eq_append_iff.mp hrest
    obtain ⟨close, rfl, hclose⟩ := List.map_eq_singleton_iff.mp hlast
    obtain ⟨found, rfl, rfl⟩ := Forest.exists_of_bare_events inner hmiddle
    cases event with
    | opening =>
      cases close with
      | closing =>
        cases hevent
        cases hclose
        exact ⟨.group _ found _, rfl, rfl⟩
      | _ => cases hclose
    | _ => cases hevent

/-- Events that agree with those of a bare level are the events of a level. -/
theorem Forest.exists_of_bare_events : (trees : Forest) → {events : List Event} →
    events.map Event.bare = Forest.events trees →
      ∃ found : Forest, Forest.events found = events ∧ found.bare = trees
  | [], events, h => by
    obtain rfl := List.map_eq_nil_iff.mp h
    exact ⟨[], rfl, rfl⟩
  | tree :: trees, events, h => by
    obtain ⟨front, back, rfl, hfront, hback⟩ := List.map_eq_append_iff.mp h
    obtain ⟨first, rfl, rfl⟩ := Tree.exists_of_bare_events tree hfront
    obtain ⟨rest, rfl, rfl⟩ := Forest.exists_of_bare_events trees hback
    exact ⟨first :: rest, rfl, rfl⟩

end

end Qualify
