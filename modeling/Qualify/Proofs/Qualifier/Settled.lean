import Qualify.Proofs.Qualifier.Level
import Qualify.Proofs.Qualifier.Rewriting

/-!
# What is qualified stays as it is

Qualifying what is qualified already changes nothing, also under another scope, as long
as that scope binds no name that was not bound before (`level_level`). The second pass
is in the same state as the first in front of every tree: a name that is kept was not
bare or is not bound, and the trees of a path lead from `normal` back to `normal` and are
put out as they are (`passes_path`), since each name in them stands behind `::` and each
token of a placeholder behind its `#`.

## Main definitions

- `Segment.isAtomic`, `Scope.Atomic` — paths of names and of placeholders for tokens
- `Qualifier.Passes` — trees that are put out as they are, from one state to another
-/

namespace Qualify

/-- Whether a segment is a name, or a `#` and a token. -/
def Segment.isAtomic : Segment → Bool
  | .name _ => true
  | .placeholder marker (.token _) => marker.text = "#"
  | .placeholder _ (.group ..) => false

/-- All paths of a scope are made of names and of placeholders for tokens. -/
def Scope.Atomic (scope : Scope) : Prop :=
  ∀ binding ∈ scope.all, ∀ segment ∈ binding.path, segment.isAtomic = true

namespace Qualifier

/-- Trees that a level puts out as they are, leading from one state to another. -/
def Passes (qualifier : Qualifier) (state : State) (trees : Forest) (next : State) : Prop :=
  ∀ rest, qualifier.level state (trees ++ rest) = trees ++ qualifier.level next rest

variable {qualifier : Qualifier}

theorem passes_nil (state : State) : qualifier.Passes state [] state := fun _ => rfl

theorem Passes.append {state middle next : State} {front back : Forest}
    (hf : qualifier.Passes state front middle) (hb : qualifier.Passes middle back next) :
    qualifier.Passes state (front ++ back) next := by
  intro rest
  rw [List.append_assoc, hf, hb, List.append_assoc]

theorem passes_token (hroot : qualifier.root = none) {state next : State} {token : Token}
    (h : plain qualifier.scope state token = ⟨[.token token], next⟩) :
    qualifier.Passes state [.token token] next := by
  intro rest
  rw [List.singleton_append, level, step_of_root_eq_none hroot, h]

/-! ### Paths -/

theorem passes_placeholder (hroot : qualifier.root = none) {state : State} {marker : Punct}
    (token : Token) (hmarker : marker.text = "#") (hstate : state ≠ .afterPound) :
    qualifier.Passes state [.punct marker, .token token] .normal := by
  have hpound : plain qualifier.scope state (.punct marker) =
      ⟨[.punct marker], .afterPound⟩ := by
    rw [plain_punct_of_ne_afterPound _ marker hstate]
    simp [State.afterPunct, hmarker]
  exact (passes_token hroot hpound).append (passes_token hroot rfl)

theorem passes_separator (hroot : qualifier.root = none) (spacing : Spacing) :
    qualifier.Passes .normal
      [.punct { text := ":", spacing := .joint }, .punct { text := ":", spacing }] .afterColon := by
  have hsecond : plain qualifier.scope .afterColon (.punct { text := ":", spacing }) =
      ⟨[.punct { text := ":", spacing }], .afterColon⟩ := by
    cases spacing <;> rfl
  exact (passes_token hroot rfl).append (passes_token hroot hsecond)

theorem passes_segment (hroot : qualifier.root = none) {segment : Segment}
    (h : segment.isAtomic = true) : qualifier.Passes .afterColon segment.trees .normal := by
  cases segment with
  | name ident => exact passes_token hroot rfl
  | placeholder marker tree =>
    cases tree with
    | token token =>
      have hmarker : marker.text = "#" := by simpa [Segment.isAtomic] using h
      exact passes_placeholder hroot token hmarker (by decide)
    | group => cases h

theorem passes_rooted (hroot : qualifier.root = none) {segment : Segment}
    (h : segment.isAtomic = true) : qualifier.Passes .normal segment.rooted .normal :=
  (passes_separator hroot _).append (passes_segment hroot h)

theorem passes_flatMap_rooted (hroot : qualifier.root = none) {path : Path}
    (h : ∀ segment ∈ path, segment.isAtomic = true) :
    qualifier.Passes .normal (path.flatMap Segment.rooted) .normal := by
  induction path with
  | nil => exact passes_nil .normal
  | cons segment rest ih =>
    obtain ⟨hsegment, hrest⟩ := List.forall_mem_cons.mp h
    exact (passes_rooted hroot hsegment).append (ih hrest)

/-- A path is put out as it is and leaves the level in the state `normal`. -/
theorem passes_path (hroot : qualifier.root = none) {path : Path}
    (h : ∀ segment ∈ path, segment.isAtomic = true) :
    qualifier.Passes .normal path.trees .normal := by
  cases path with
  | nil => exact passes_nil .normal
  | cons first rest =>
    obtain ⟨hfirst, hrest⟩ := List.forall_mem_cons.mp h
    have hbehind := passes_flatMap_rooted hroot hrest
    cases first with
    | name ident => exact (passes_rooted hroot hfirst).append hbehind
    | placeholder marker tree =>
      -- A placeholder at the start has no separator in front of it.
      cases tree with
      | token token =>
        have hmarker : marker.text = "#" := by simpa [Segment.isAtomic] using hfirst
        exact (passes_placeholder hroot token hmarker (by decide)).append hbehind
      | group => cases hfirst

/-! ### The second pass -/

theorem plain_eq_of_not_bare (scope other : Scope) {state : State} {token : Token}
    (h : ¬ (state = .normal ∧ (Tree.token token).ident? ≠ none)) :
    plain scope state token = plain other state token := by
  cases token with
  | punct mark => cases state <;> rfl
  | literal literal => cases state <;> rfl
  | ident ident =>
    by_cases hstate : state = .normal
    · exact absurd ⟨hstate, Option.some_ne_none ident⟩ h
    · rw [plain_ident_of_ne_normal scope ident hstate, plain_ident_of_ne_normal other ident hstate]

/-- What one pass puts out for a token is put out as it is by another, which comes to
the same state. -/
theorem passes_plain (hroot : qualifier.root = none) {scope : Scope} (hatomic : scope.Atomic)
    (hbound : ∀ name, scope.lookup? name = none → qualifier.scope.lookup? name = none)
    (state : State) (token : Token) :
    qualifier.Passes state (plain scope state token).out (plain scope state token).state := by
  by_cases hbare : state = .normal ∧ (Tree.token token).ident? ≠ none
  · obtain ⟨rfl, hident⟩ := hbare
    obtain ⟨ident, hident⟩ := Option.ne_none_iff_exists'.mp hident
    cases Declaration.exists_ident_of_ident? hident
    cases hlookup : scope.lookup? ident.text with
    | some binding =>
      simp only [plain, substitute, hlookup]
      exact passes_path hroot (hatomic binding (List.mem_of_find?_eq_some hlookup))
    | none =>
      simp only [plain, substitute, hlookup]
      refine passes_token hroot ?_
      simp only [plain, substitute, hbound _ hlookup]
  · rw [out_plain_of_not_bare scope hbare, plain_eq_of_not_bare scope qualifier.scope hbare]
    refine passes_token hroot ?_
    rw [← out_plain_of_not_bare qualifier.scope hbare]

/-- Qualifying a level that is qualified already changes nothing. -/
theorem level_level {first second : Qualifier} (hfirst : first.root = none)
    (hsecond : second.root = none) (hatomic : first.scope.Atomic)
    (hbound : ∀ name, first.scope.lookup? name = none → second.scope.lookup? name = none) :
    ∀ (trees : Forest) (state : State), state.held = [] → trees.isVisible = true →
      second.level state (first.level state trees) = first.level state trees
  | [], state, hheld, _ => by rw [level, hheld, level, hheld]
  | .token token :: rest, state, hheld, hvisible => by
    have hrest : Forest.isVisible rest = true := (Bool.and_eq_true_iff.mp hvisible).2
    have hnext := held_plain first.scope token hheld
    have hpasses := passes_plain hsecond hatomic hbound state token
    rw [level, step_of_root_eq_none hfirst, hpasses,
      level_level hfirst hsecond hatomic hbound rest _ hnext hrest]
  | .group delimiter inner span :: rest, state, hheld, hvisible => by
    simp only [Forest.isVisible, Tree.isVisible, Bool.and_eq_true, decide_eq_true_eq] at hvisible
    obtain ⟨⟨hdelimiter, hinner⟩, hrest⟩ := hvisible
    -- Both passes start afresh inside the group and behind it.
    have hinside := level_level hfirst hsecond hatomic hbound inner .normal rfl hinner
    have hbehind := level_level hfirst hsecond hatomic hbound rest .normal rfl hrest
    rw [level, hheld, group, regroup, if_neg hdelimiter, List.nil_append, List.singleton_append,
      level, hheld, group, regroup, if_neg hdelimiter, hinside, hbehind]
    rfl
termination_by trees => sizeOf trees

end Qualifier

end Qualify
