import Qualify.Proofs.Quote.Faithful
import Qualify.Proofs.Scope.Sound
import Qualify.Proofs.Qualifier.Settled

/-!
# Expanded bodies are fixed points

Expanding what a body expands to gives the same again (`expand_expand`). The second
expansion reads no declarations: a tail does not start with one, and neither does what
it is qualified to, since a path starts with a colon or with a `#` and the token of a
placeholder. So only the prelude is left in scope, and every name of it was in scope
before, unless a declaration had switched it off.

## Main definitions

- `Segment.isInert` — a name, or a placeholder for a token other than `use`
-/

namespace Qualify

/-- Whether a segment is a name, or a placeholder for a token other than `use`. -/
def Segment.isInert : Segment → Bool
  | .name _ => true
  | .placeholder _ (.token token) => !(Tree.token token).isIdent "use"
  | .placeholder _ (.group ..) => false

theorem Segment.isAtomic_of_isInert {segment : Segment} (h : segment.isInert = true)
    (hmarked : segment.Marked) : segment.isAtomic = true := by
  cases segment with
  | name ident => rfl
  | placeholder marker tree =>
    cases tree with
    | token token => exact decide_eq_true hmarked
    | group => cases h

namespace Declaration

/-! ### No declaration in front -/

/-- What declarations leave does not start with one. -/
theorem introduced?_of_leading {style : Style} {stop : Span} {trees tail : Forest}
    {bindings : List Binding} (h : leading style stop trees = .ok (bindings, tail)) :
    introduced? style tail = none := by
  obtain ⟨clauses, front, -, -, -, hnone⟩ := sequence_of_leading h
  exact hnone

theorem leading_of_introduced? {style : Style} {trees : Forest} (stop : Span)
    (h : introduced? style trees = none) : leading style stop trees = .ok ([], trees) := by
  unfold leading
  split
  · rfl
  · next hdeclared =>
    rw [h] at hdeclared
    cases hdeclared

theorem introduced?_eq_none_iff {tree : Tree} (style : Style) (rest : Forest)
    (h : tree.isPunct "#" = false) :
    introduced? style (tree :: rest) = none ↔ (style = .bare → tree.isIdent "use" = false) := by
  cases style with
  | bare => simp [introduced?]
  | pound => cases rest <;> simp [introduced?, h]

theorem introduced?_pound_eq_none_iff {mark tree : Tree} (style : Style) (rest : Forest)
    (h : mark.isPunct "#" = true) :
    introduced? style (mark :: tree :: rest) = none ↔
      (style = .pound → tree.isIdent "use" = false) := by
  cases style with
  | bare => simp [introduced?, isIdent_eq_false_of_isPunct "use" h]
  | pound => simp [introduced?, h]

theorem introduced?_pound_singleton {mark : Tree} (style : Style) (h : mark.isPunct "#" = true) :
    introduced? style [mark] = none := by
  cases style with
  | bare => simp [introduced?, isIdent_eq_false_of_isPunct "use" h]
  | pound => rfl

end Declaration

namespace Qualifier

open Declaration

theorem introduced?_path {path : Path} (style : Style) (rest : Forest) (hne : path ≠ [])
    (hinert : ∀ segment ∈ path, segment.isInert = true)
    (hmarked : ∀ segment ∈ path, segment.Marked) :
    introduced? style (path.trees ++ rest) = none := by
  cases path with
  | nil => exact absurd rfl hne
  | cons first others =>
    have hfirst := hinert first List.mem_cons_self
    have hmarker := hmarked first List.mem_cons_self
    cases first with
    | name ident => exact (introduced?_eq_none_iff style _ rfl).mpr fun _ => rfl
    | placeholder marker tree =>
      have hpound : marker.text = "#" := hmarker
      cases tree with
      | group => cases hfirst
      | token token =>
        have hmark : (Tree.punct marker).isPunct "#" = true := decide_eq_true hpound
        refine (introduced?_pound_eq_none_iff style _ hmark).mpr fun _ => ?_
        simpa [Segment.isInert] using hfirst

/-- Qualifying a level puts no declaration in front of it. -/
theorem introduced?_level {qualifier : Qualifier} (hroot : qualifier.root = none) {style : Style}
    (hsound : ∀ binding ∈ qualifier.scope.all, binding.Sound)
    (hinert : ∀ binding ∈ qualifier.scope.all, ∀ segment ∈ binding.path, segment.isInert = true)
    {trees : Forest} (hvisible : trees.isVisible = true) (h : introduced? style trees = none) :
    introduced? style (qualifier.level .normal trees) = none := by
  cases trees with
  | nil =>
    rw [level]
    exact h
  | cons tree rest =>
    cases tree with
    | group delimiter inner span =>
      simp only [Forest.isVisible, Tree.isVisible, Bool.and_eq_true, decide_eq_true_eq] at hvisible
      rw [level, group, regroup, if_neg hvisible.1.1]
      exact (introduced?_eq_none_iff style _ rfl).mpr fun _ => rfl
    | token token =>
      rw [level, step_of_root_eq_none hroot]
      cases token with
      | literal literal => exact (introduced?_eq_none_iff style _ rfl).mpr fun _ => rfl
      | ident ident =>
        cases hlookup : qualifier.scope.lookup? ident.text with
        | some binding =>
          have hmem := List.mem_of_find?_eq_some hlookup
          simp only [plain, substitute, hlookup]
          exact introduced?_path style _ (hsound binding hmem).path_ne_nil (hinert binding hmem)
            (hsound binding hmem).marked
        | none =>
          simp only [plain, substitute, hlookup]
          exact (introduced?_eq_none_iff style _ rfl).mpr
            ((introduced?_eq_none_iff style rest rfl).mp h)
      | punct mark =>
        by_cases hpound : mark.text = "#"
        · -- The tree behind a `#` is kept, so it starts no declaration if it did not before.
          have hmark : (Tree.punct mark).isPunct "#" = true := decide_eq_true hpound
          have hplain : plain qualifier.scope .normal (.punct mark) =
              ⟨[.punct mark], .afterPound⟩ := by simp [plain, State.afterPunct, hpound]
          rw [hplain]
          cases rest with
          | nil =>
            rw [level]
            exact introduced?_pound_singleton style hmark
          | cons next others =>
            have hnext := (introduced?_pound_eq_none_iff style others hmark).mp h
            cases next with
            | token token =>
              rw [level, step_of_root_eq_none hroot]
              exact (introduced?_pound_eq_none_iff style _ hmark).mpr hnext
            | group delimiter inner span =>
              simp only [Forest.isVisible, Tree.isVisible, Bool.and_eq_true,
                decide_eq_true_eq] at hvisible
              rw [level, group, regroup, if_neg hvisible.2.1.1]
              exact (introduced?_pound_eq_none_iff style _ hmark).mpr hnext
        · have hmark : (Tree.punct mark).isPunct "#" = false := decide_eq_false hpound
          exact (introduced?_eq_none_iff style _ hmark).mpr fun _ => rfl

end Qualifier

/-! ### Expanding again -/

/-- The scope of a body without declarations binds no name that is not bound by the
same prelude behind declarations. -/
theorem Scope.lookup?_ofBindings_nil {bindings : List Binding} {config : Config}
    (hprelude : ∀ binding ∈ bindings, binding.isSwitch noPrelude = false)
    (hstd : ∀ binding ∈ bindings, binding.isSwitch noStd = false) {name : String}
    (h : (Scope.ofBindings bindings config).lookup? name = none) :
    (Scope.ofBindings [] config).lookup? name = none := by
  have hkept : (Scope.ofBindings bindings config).prelude = (Scope.ofBindings [] config).prelude := by
    have hno : bindings.any (Binding.isSwitch noPrelude) = false := by simpa using hprelude
    have hnot : bindings.any (Binding.isSwitch noStd) = false := by simpa using hstd
    simp [Scope.ofBindings, Declared.ofBindings, hno, hnot]
  rw [Scope.lookup?, Scope.all, List.find?_append, Option.or_eq_none_iff, hkept] at h
  exact h.2

theorem Segment.isInert_of_isPlaceholder {segment : Segment} (h : segment.isPlaceholder = false) :
    segment.isInert = true := by
  cases segment with
  | name ident => rfl
  | placeholder marker tree => cases h

theorem Scope.isInert_ofBindings {bindings : List Binding} (config : Config)
    (h : ∀ binding ∈ bindings, ∀ segment ∈ binding.path, segment.isInert = true) :
    ∀ binding ∈ (Scope.ofBindings bindings config).all,
      ∀ segment ∈ binding.path, segment.isInert = true := by
  intro binding hmem
  rcases Scope.mem_all_ofBindings hmem with hdeclared | ⟨std, hprelude⟩
  · exact h binding hdeclared
  · intro segment hsegment
    exact Segment.isInert_of_isPlaceholder
      (Prelude.isPlaceholder_eq_false hprelude segment hsegment)

/-- Qualifying in the scope of one set of names and then in that of some of them is
qualifying once. -/
theorem Qualifier.qualify_qualify {first second : Qualifier} (hfirst : first.root = none)
    (hsecond : second.root = none) (hatomic : first.scope.Atomic)
    (hbound : ∀ name, first.scope.lookup? name = none → second.scope.lookup? name = none)
    {trees : Forest} (hvisible : trees.isVisible = true) :
    second.qualify (first.qualify trees) = first.qualify trees := by
  rw [qualify_eq_level, qualify_eq_level]
  exact level_level hfirst hsecond hatomic hbound trees .normal rfl hvisible

/-- Expanding a quote of inert segments leaves a body without declarations that expands
to itself. -/
theorem Quote.expand_expand {quote : Quote} {config : Config} {trees : Forest}
    (hoff : config.namespacing = false) (hvisible : trees.isVisible = true)
    (hread : Quote.read config.style trees = .ok quote)
    (hprelude : ∀ binding ∈ quote.bindings, binding.isSwitch noPrelude = false)
    (hstd : ∀ binding ∈ quote.bindings, binding.isSwitch noStd = false)
    (hinert : ∀ binding ∈ quote.bindings, ∀ segment ∈ binding.path, segment.isInert = true) :
    Qualify.expand config (quote.expand config) = .ok (quote.expand config) := by
  have hleading := Quote.leading_of_read hread
  obtain ⟨front, rfl⟩ := (Declaration.within_of_leading hleading List.infix_rfl).2
  rw [Forest.isVisible_append, Bool.and_eq_true] at hvisible
  have hroot (scope : Scope) : (Qualifier.ofScope scope config).root = none := by
    simp [Qualifier.ofScope, hoff]
  have hsound := Scope.sound_ofBindings config (Declaration.sound_of_leading hleading)
  have hall := Scope.isInert_ofBindings config hinert
  have hatomic : (quote.scope config).Atomic := by
    intro binding hmem segment hsegment
    exact Segment.isAtomic_of_isInert (hall binding hmem segment hsegment)
      ((hsound binding hmem).marked segment hsegment)
  -- The second expansion finds no declarations, so that the prelude alone is in scope.
  have hnone : Declaration.introduced? config.style (quote.expand config) = none := by
    rw [Quote.expand, Qualifier.qualify_eq_level]
    exact Qualifier.introduced?_level (hroot _) hsound hall hvisible.2
      (Declaration.introduced?_of_leading hleading)
  have hagain : Quote.read config.style (quote.expand config) = .ok ⟨[], quote.expand config⟩ := by
    rw [Quote.read, Declaration.leading_of_introduced? {} hnone]
  rw [Qualify.expand, hagain]
  refine congrArg Except.ok ?_
  exact Qualifier.qualify_qualify (hroot _) (hroot _) hatomic
    (fun name => Scope.lookup?_ofBindings_nil hprelude hstd) hvisible.2

/-- Expanding is done once and for all. What a body expands to expands to itself, if no
group of the body is invisible, no declaration is a switch, and no placeholder is for a
group or for `use`. More generally what was qualified in a scope of names and of
placeholders for tokens stays as it is in every scope that binds no other names. -/
theorem expand_settles (config : Config) (hoff : config.namespacing = false) :
    (∀ trees quote, Forest.isVisible trees = true → Quote.read config.style trees = .ok quote →
      (∀ binding ∈ quote.bindings,
        binding.isSwitch noPrelude = false ∧ binding.isSwitch noStd = false ∧
          ∀ segment ∈ binding.path, segment.isInert = true) →
      ∃ result, expand config trees = .ok result ∧ expand config result = .ok result) ∧
    ∀ (first second : Scope) (trees : Forest), first.Atomic →
      (∀ binding ∈ second.all, ∃ other ∈ first.all, other.name.text = binding.name.text) →
      trees.isVisible = true →
      (Qualifier.ofScope second config).qualify ((Qualifier.ofScope first config).qualify trees) =
        (Qualifier.ofScope first config).qualify trees := by
  refine ⟨?_, ?_⟩
  · intro trees quote hvisible hread hbindings
    refine ⟨quote.expand config, ?_, ?_⟩
    · rw [expand, hread]
      rfl
    · exact Quote.expand_expand hoff hvisible hread (fun binding hmem => (hbindings binding hmem).1)
        (fun binding hmem => (hbindings binding hmem).2.1)
        (fun binding hmem => (hbindings binding hmem).2.2)
  · intro first second trees hatomic hnames hvisible
    have hroot (scope : Scope) : (Qualifier.ofScope scope config).root = none := by
      simp [Qualifier.ofScope, hoff]
    refine Qualifier.qualify_qualify (hroot first) (hroot second) hatomic ?_ hvisible
    intro name hnone
    simp only [Qualifier.ofScope, Scope.lookup?, List.find?_eq_none, decide_eq_true_eq] at hnone ⊢
    intro binding hmem hname
    obtain ⟨other, hother, htext⟩ := hnames binding hmem
    exact hnone other hother (htext.trans hname)

/-- Placeholders at the start and inside of a path, the prelude, a lifetime and a name
behind `#`; and a second scope that binds a name to another path. -/
theorem expand_settles_placeholder :
    let source := "# use #r::#m as N; # use a::b; N::new(b, &'b N, #b, Some(1))"
    let path : Path := [.placeholder { text := "#" } (.ident { text := "r" }), .name { text := "N" }]
    let first : Scope := ⟨[⟨{ text := "N" }, path⟩], []⟩
    let second : Scope := ⟨[⟨{ text := "N" }, [.name { text := "z" }]⟩], []⟩
    (∃ trees quote result, Forest.lex none source = .ok trees ∧
      trees.isVisible = true ∧ Quote.read .pound trees = .ok quote ∧
      (∀ binding ∈ quote.bindings,
        binding.isSwitch noPrelude = false ∧ binding.isSwitch noStd = false ∧
          ∀ segment ∈ binding.path, segment.isInert = true) ∧
      expand {} trees = .ok result ∧ expand {} result = .ok result) ∧
    first.Atomic ∧
      (∀ binding ∈ second.all, ∃ other ∈ first.all, other.name.text = binding.name.text) ∧
      (Qualifier.ofScope second {}).qualify
          ((Qualifier.ofScope first {}).qualify [.ident { text := "N" }]) =
        (Qualifier.ofScope first {}).qualify [.ident { text := "N" }] := by
  intro source path first second
  obtain ⟨hexpand, hqualify⟩ := expand_settles {} rfl
  refine ⟨?_, ?_⟩
  · have hcheck : ((Forest.lex none source).toOption.bind fun trees =>
        (Quote.read .pound trees).toOption.map fun quote =>
          trees.isVisible && quote.bindings.all fun binding =>
            !binding.isSwitch noPrelude && (!binding.isSwitch noStd &&
              binding.path.all Segment.isInert)) = some true := by
      decide +kernel
    obtain ⟨trees, hlex, hcheck⟩ := Option.bind_eq_some_iff.mp hcheck
    obtain ⟨quote, hread, hcheck⟩ := Option.map_eq_some_iff.mp hcheck
    simp only [Bool.and_eq_true, Bool.not_eq_true', List.all_eq_true] at hcheck
    have hread := eq_ok_of_toOption hread
    obtain ⟨result, honce, htwice⟩ := hexpand trees quote hcheck.1 hread hcheck.2
    exact ⟨trees, quote, result, eq_ok_of_toOption hlex, hcheck.1, hread, hcheck.2, honce, htwice⟩
  · have hatomic : first.Atomic := by
      intro binding hmem
      obtain rfl := List.mem_singleton.mp hmem
      decide
    have hnames : ∀ binding ∈ second.all, ∃ other ∈ first.all,
        other.name.text = binding.name.text := by decide
    exact ⟨hatomic, hnames, hqualify first second _ hatomic hnames rfl⟩

end Qualify
