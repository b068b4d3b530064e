import Qualify.Proofs.Declaration.Sequence
import Qualify.Proofs.Scope.Loading
import Qualify.Proofs.Scope.Ranked
import Qualify.Qualifier

/-!
# The reserved name

`self` stands for the path in front of it and is not meant to be a name that a path is bound
under. A plain item keeps to that: it is bound under the last name of its path, and no
segment of a path that is bound is `self`. An alias is not looked at, so `as self` binds the
reserved name, and nothing else does (`Clauses.exists_self_iff`). The prelude has no such
alias. A bare `self` is therefore replaced exactly where a declaration renames a path to it
(`self_bound_iff`).

## Main definitions

- `Clause.aliases` — the names that an item gives by `as`, at any depth
-/

namespace Qualify

namespace Declaration

mutual

/-- The names that an item gives by `as`, those inside braces included. -/
def Clause.aliases : Clause → List Ident
  | .group _ members => Clauses.aliases members
  | .plain _ _ => []
  | .renamed _ _ name => [name]

/-- The names that items give by `as`. -/
def Clauses.aliases : List Clause → List Ident
  | [] => []
  | clause :: clauses => clause.aliases ++ Clauses.aliases clauses

end

/-! ### Names that items bind -/

/-- A path without `self` is not bound under it. -/
theorem name_ne_self_of_mem_plainBinding {path : Path} {binding : Binding}
    (hpath : Bindable path) (h : binding ∈ Clause.plainBinding path) :
    binding.name.text ≠ "self" := by
  unfold Clause.plainBinding at h
  split at h
  · next ident hlast =>
    obtain rfl := List.mem_singleton.mp h
    exact of_decide_eq_false (hpath.2 (.name ident) (List.mem_of_getLast? hlast))
  · cases h

mutual

/-- An item that binds `self` gives it by `as`. -/
theorem Clause.Valid.name_mem_aliases {outer : Path}
    (houter : ∀ segment ∈ outer, segment.isSelf = false) :
    (clause : Clause) → clause.Valid outer → ∀ binding ∈ clause.bindings outer,
      binding.name.text = "self" → binding.name ∈ clause.aliases
  | .group front members, ⟨hfront, hmembers⟩ => by
    refine Clauses.Valid.name_mem_aliases ?_ members hmembers
    intro segment hmem
    rcases List.mem_append.mp hmem with hmem | hmem
    · exact houter segment hmem
    · exact hfront segment hmem
  | .plain front last, ⟨hself, _⟩ => by
    intro binding hmem hname
    exact absurd hname (name_ne_self_of_mem_plainBinding (hself.bindable houter) hmem)
  | .renamed front last name, _ => by
    intro binding hmem _
    rw [List.mem_singleton.mp hmem]
    exact List.mem_singleton_self name

/-- Items that bind `self` give it by `as`. -/
theorem Clauses.Valid.name_mem_aliases {outer : Path}
    (houter : ∀ segment ∈ outer, segment.isSelf = false) :
    (clauses : List Clause) → Clauses.Valid outer clauses →
      ∀ binding ∈ Clauses.bindings outer clauses,
        binding.name.text = "self" → binding.name ∈ Clauses.aliases clauses
  | [], _ => by
    intro binding hmem
    cases hmem
  | clause :: clauses, ⟨hclause, hclauses⟩ => by
    intro binding hmem hname
    rcases List.mem_append.mp hmem with hmem | hmem
    · exact List.mem_append_left _
        (Clause.Valid.name_mem_aliases houter clause hclause binding hmem hname)
    · exact List.mem_append_right _
        (Clauses.Valid.name_mem_aliases houter clauses hclauses binding hmem hname)

end

mutual

/-- Every alias of an item is bound. -/
theorem Clause.exists_of_mem_aliases {name : Ident} (outer : Path) :
    (clause : Clause) → name ∈ clause.aliases →
      ∃ binding ∈ clause.bindings outer, binding.name = name
  | .group front members, h => Clauses.exists_of_mem_aliases (outer ++ front) members h
  | .plain front last, h => by cases h
  | .renamed front last given, h =>
    ⟨_, List.mem_singleton_self _, (List.mem_singleton.mp h).symm⟩

/-- Every alias of items is bound. -/
theorem Clauses.exists_of_mem_aliases {name : Ident} (outer : Path) :
    (clauses : List Clause) → name ∈ Clauses.aliases clauses →
      ∃ binding ∈ Clauses.bindings outer clauses, binding.name = name
  | [], h => by cases h
  | clause :: clauses, h => by
    rcases List.mem_append.mp h with h | h
    · obtain ⟨binding, hmem, hname⟩ := Clause.exists_of_mem_aliases outer clause h
      exact ⟨binding, List.mem_append_left _ hmem, hname⟩
    · obtain ⟨binding, hmem, hname⟩ := Clauses.exists_of_mem_aliases outer clauses h
      exact ⟨binding, List.mem_append_right _ hmem, hname⟩

end

/-- Items bind `self` exactly where one of them gives it by `as`. -/
theorem Clauses.exists_self_iff {clauses : List Clause} (h : Clauses.Valid [] clauses) :
    (∃ binding ∈ Clauses.bindings [] clauses, binding.name.text = "self") ↔
      ∃ name ∈ Clauses.aliases clauses, name.text = "self" := by
  constructor
  · rintro ⟨binding, hmem, hname⟩
    have hvalid := Clauses.Valid.name_mem_aliases (List.forall_mem_nil _) clauses h
    exact ⟨binding.name, hvalid binding hmem hname, hname⟩
  · rintro ⟨name, hmem, hname⟩
    obtain ⟨binding, hbinding, rfl⟩ := Clauses.exists_of_mem_aliases [] clauses hmem
    exact ⟨binding, hbinding, hname⟩

end Declaration

/-! ### The prelude -/

/-- A bundle whose lines bind other names only leaves a name free. -/
theorem Bundle.name_ne_of_readsAll (bundle : Bundle) {reserved : String} {lines : List String}
    (hsource : bundle.source = Text.ofLines lines)
    (h : readsAll (fun binding => binding.name.text != reserved) bundle.name lines = true) :
    ∀ binding ∈ bundle.bindings, binding.name.text ≠ reserved := by
  intro binding hmem
  exact bne_iff_ne.mp ((load_of_readsAll hsource h).2 binding hmem)

/-- The prelude leaves the reserved name free. -/
theorem Prelude.name_ne_self {selection : Selection} {std : Bool} {binding : Binding}
    (h : binding ∈ Prelude.bindings selection std) : binding.name.text ≠ "self" := by
  simp only [Prelude.bindings, List.mem_append, List.mem_ite_nil_right] at h
  rcases h with ⟨-, h⟩ | ⟨-, h⟩ | ⟨-, h⟩
  · exact Bundle.name_ne_of_readsAll .core rfl (by decide +kernel) binding h
  · exact Bundle.name_ne_of_readsAll .std rfl (by decide +kernel) binding h
  · exact Bundle.name_ne_of_readsAll .edition rfl (by decide +kernel) binding h

/-! ### Bare names -/

/-- A switch has another name, so `self` is in scope exactly where it is declared. -/
theorem Scope.lookup?_self_eq_none_iff (bindings : List Binding) (config : Config) :
    (Scope.ofBindings bindings config).lookup? "self" = none ↔
      ∀ binding ∈ bindings, binding.name.text ≠ "self" := by
  rw [Scope.lookup?_eq_none_iff]
  constructor
  · intro h binding hmem hname
    have hproper : binding.isProper = true := by
      simp [Binding.isProper, Binding.isSwitch, hname, noPrelude, noStd]
    exact h binding (List.mem_append_left _ (List.mem_filter.mpr ⟨hmem, hproper⟩)) hname
  · intro h binding hmem hname
    rcases Scope.mem_all_ofBindings hmem with hdeclared | ⟨std, hprelude⟩
    · exact h binding hdeclared hname
    · exact Prelude.name_ne_self hprelude hname

/-- A path starts with a mark. -/
theorem Path.trees_ne_ident {path : Path} (h : path ≠ []) (ident : Ident) :
    path.trees ≠ [.ident ident] := by
  intro heq
  cases path with
  | nil => exact h rfl
  | cons first rest => cases first <;> cases heq

/-- A bare name is kept exactly where it is not in scope. -/
theorem Qualifier.substitute_eq_ident_iff {scope : Scope} (ident : Ident)
    (hsound : ∀ binding ∈ scope.all, binding.Sound) :
    Qualifier.substitute scope ident = [.ident ident] ↔ scope.lookup? ident.text = none := by
  unfold Qualifier.substitute
  cases hlookup : scope.lookup? ident.text with
  | none => exact iff_of_true rfl rfl
  | some binding =>
    have hmem := List.mem_of_find?_eq_some hlookup
    exact iff_of_false (Path.trees_ne_ident (hsound binding hmem).path_ne_nil ident) nofun

namespace Declaration

/-- Declarations bind the reserved name exactly where one of them gives it by `as`: no plain
item binds it, in braces or not, and neither does a `self` at the end of a chain. So a bare
`self` is kept, under every configuration, exactly where no declaration has it for an alias;
the prelude never replaces it. -/
theorem self_bound_iff {style : Style} {stop : Span} {trees left : Forest}
    {bindings : List Binding} (h : leading style stop trees = .ok (bindings, left)) :
    ∃ clauses front, trees = front ++ left ∧ Sequence style clauses front ∧
      bindings = Clauses.bindings [] clauses ∧
      ((∃ binding ∈ bindings, binding.name.text = "self") ↔
        ∃ name ∈ Clauses.aliases clauses, name.text = "self") ∧
      ∀ (config : Config) (ident : Ident), ident.text = "self" →
        (Qualifier.substitute (Scope.ofBindings bindings config) ident = [.ident ident] ↔
          ∀ name ∈ Clauses.aliases clauses, name.text ≠ "self") := by
  obtain ⟨clauses, front, htrees, hsequence, hbindings, -⟩ := sequence_of_leading h
  have hself : (∃ binding ∈ bindings, binding.name.text = "self") ↔
      ∃ name ∈ Clauses.aliases clauses, name.text = "self" := by
    rw [hbindings]
    exact Clauses.exists_self_iff hsequence.valid
  refine ⟨clauses, front, htrees, hsequence, hbindings, hself, ?_⟩
  intro config ident hident
  have hsound := Scope.sound_ofBindings config (sound_of_leading h)
  rw [Qualifier.substitute_eq_ident_iff ident hsound, hident, Scope.lookup?_self_eq_none_iff]
  have hnone := not_congr hself
  simpa only [not_exists, not_and] using hnone

/-- An alias binds `self`, and the bare name is replaced; a `self` at the end of a chain, with
an alias and without, leaves it alone. -/
theorem self_bound_iff_alias :
    (∃ trees bindings left, Forest.lex none "# use a as self; self" = .ok trees ∧
      leading .pound {} trees = .ok (bindings, left) ∧
      (∃ binding ∈ bindings, binding.name.text = "self") ∧
      ∀ config, Qualifier.substitute (Scope.ofBindings bindings config) { text := "self" } ≠
        [.ident { text := "self" }]) ∧
    ∃ trees bindings left, Forest.lex none "# use b::\x7bself, c::self as d\x7d; self" = .ok trees ∧
      leading .pound {} trees = .ok (bindings, left) ∧
      (¬ ∃ binding ∈ bindings, binding.name.text = "self") ∧
      ∀ config, Qualifier.substitute (Scope.ofBindings bindings config) { text := "self" } =
        [.ident { text := "self" }] := by
  constructor
  · have hcheck : ((Forest.lex none "# use a as self; self").toOption.bind fun trees =>
        (leading .pound {} trees).toOption.map fun reading =>
          reading.1.any fun binding => binding.name.text = "self") = some true := by
      decide +kernel
    obtain ⟨trees, hlex, hcheck⟩ := Option.bind_eq_some_iff.mp hcheck
    obtain ⟨⟨bindings, left⟩, hread, hany⟩ := Option.map_eq_some_iff.mp hcheck
    have hread := eq_ok_of_toOption hread
    have hself : ∃ binding ∈ bindings, binding.name.text = "self" := by simpa using hany
    obtain ⟨clauses, front, -, -, -, hiff, hkept⟩ := self_bound_iff hread
    obtain ⟨name, hmem, hname⟩ := hiff.mp hself
    refine ⟨trees, bindings, left, eq_ok_of_toOption hlex, hread, hself, ?_⟩
    intro config heq
    exact (hkept config { text := "self" } rfl).mp heq name hmem hname
  · have hcheck : ((Forest.lex none "# use b::\x7bself, c::self as d\x7d; self").toOption.bind
        fun trees => (leading .pound {} trees).toOption.map fun reading =>
          reading.1.any fun binding => binding.name.text = "self") = some false := by
      decide +kernel
    obtain ⟨trees, hlex, hcheck⟩ := Option.bind_eq_some_iff.mp hcheck
    obtain ⟨⟨bindings, left⟩, hread, hany⟩ := Option.map_eq_some_iff.mp hcheck
    have hread := eq_ok_of_toOption hread
    have hself : ¬ ∃ binding ∈ bindings, binding.name.text = "self" := by simpa using hany
    obtain ⟨clauses, front, -, -, -, hiff, hkept⟩ := self_bound_iff hread
    refine ⟨trees, bindings, left, eq_ok_of_toOption hlex, hread, hself, ?_⟩
    intro config
    refine (hkept config { text := "self" } rfl).mpr ?_
    intro name hmem hname
    exact hself (hiff.mpr ⟨name, hmem, hname⟩)

end Declaration

end Qualify
