import Qualify.Proofs.Scope.Words

/-!
# Bindings that can be rendered

A path needs a segment to be rendered, and `self` is no segment of an absolute path.
Declarations are only read where this holds (`Declaration.sound_of_leading`): `self` is
refused in front of `::`, so it never becomes part of the path around a group, and a
`self` that ends a chain gives way to the path in front of it, which has to be there.
The prelude is made of declarations, so all bindings of a scope are sound.

## Main definitions

- `Binding.Sound` — a path with segments, none of them `self`
-/

namespace Qualify

/-- A path that has segments, none of them `self`, and only placeholders marked by `#`. -/
structure Binding.Sound (binding : Binding) : Prop where
  path_ne_nil : binding.path ≠ []
  isSelf_eq_false : ∀ segment ∈ binding.path, segment.isSelf = false
  marked : ∀ segment ∈ binding.path, segment.Marked

theorem Binding.Sound.render {binding : Binding} (h : binding.Sound) :
    binding.path.render = .ok binding.path.trees := by
  rw [Path.render, if_neg]
  simpa using h.path_ne_nil

namespace Declaration

/-- A path that is bound: it has segments, and none of them is `self`. -/
def Bindable (path : Path) : Prop := path ≠ [] ∧ ∀ segment ∈ path, segment.isSelf = false

theorem Clause.Selfless.bindable {outer : Path} {front : List Segment} {last : Segment}
    (h : Clause.Selfless outer front last) (houter : ∀ segment ∈ outer, segment.isSelf = false) :
    Bindable (Clause.path outer front last) := by
  refine ⟨h.path_ne_nil, ?_⟩
  have hfront : ∀ segment ∈ outer ++ front, segment.isSelf = false := by
    intro segment hmem
    rcases List.mem_append.mp hmem with hmem | hmem
    · exact houter segment hmem
    · exact h.1 segment hmem
  rw [Clause.path, dropSelf_concat]
  by_cases hself : last.isSelf = true
  · rw [if_pos hself]
    exact hfront
  · rw [if_neg hself]
    intro segment hmem
    rcases List.mem_append.mp hmem with hmem | hmem
    · exact hfront segment hmem
    · rw [List.mem_singleton.mp hmem]
      exact Bool.eq_false_iff.mpr hself

theorem path_eq_of_mem_plainBinding {path : Path} {binding : Binding}
    (h : binding ∈ Clause.plainBinding path) : binding.path = path := by
  unfold Clause.plainBinding at h
  split at h
  · rw [List.mem_singleton.mp h]
  · cases h

mutual

theorem Clause.Valid.bindable {outer : Path}
    (houter : ∀ segment ∈ outer, segment.isSelf = false) :
    (clause : Clause) → clause.Valid outer →
      ∀ binding ∈ clause.bindings outer, Bindable binding.path
  | .group front members, ⟨hfront, hmembers⟩ => by
    refine Clauses.Valid.bindable ?_ members hmembers
    intro segment hmem
    rcases List.mem_append.mp hmem with hmem | hmem
    · exact houter segment hmem
    · exact hfront segment hmem
  | .plain front last, ⟨hself, _⟩ => by
    intro binding hmem
    rw [path_eq_of_mem_plainBinding hmem]
    exact hself.bindable houter
  | .renamed front last name, hself => by
    intro binding hmem
    rw [List.mem_singleton.mp hmem]
    exact Clause.Selfless.bindable hself houter

theorem Clauses.Valid.bindable {outer : Path}
    (houter : ∀ segment ∈ outer, segment.isSelf = false) :
    (clauses : List Clause) → Clauses.Valid outer clauses →
      ∀ binding ∈ Clauses.bindings outer clauses, Bindable binding.path
  | [], _ => List.forall_mem_nil _
  | clause :: clauses, ⟨hclause, hclauses⟩ => by
    intro binding hmem
    rcases List.mem_append.mp hmem with hmem | hmem
    · exact Clause.Valid.bindable houter clause hclause binding hmem
    · exact Clauses.Valid.bindable houter clauses hclauses binding hmem

end

theorem bindable_of_leading {style : Style} {stop : Span} {trees tail : Forest}
    {bindings : List Binding} (h : leading style stop trees = .ok (bindings, tail)) :
    ∀ binding ∈ bindings, Bindable binding.path := by
  obtain ⟨clauses, front, -, hsequence, rfl, -⟩ := sequence_of_leading h
  exact Clauses.Valid.bindable (List.forall_mem_nil _) clauses hsequence.valid

/-- Declarations bind sound paths. -/
theorem sound_of_leading {style : Style} {stop : Span} {trees tail : Forest}
    {bindings : List Binding} (h : leading style stop trees = .ok (bindings, tail)) :
    ∀ binding ∈ bindings, binding.Sound := by
  intro binding hmem
  obtain ⟨hne, hself⟩ := bindable_of_leading h binding hmem
  have hwithin := (within_of_leading h List.infix_rfl).1 binding hmem
  exact ⟨hne, hself, fun segment hsegment => (hwithin segment hsegment).1⟩

end Declaration

theorem Prelude.sound {selection : Selection} {std : Bool} {binding : Binding}
    (h : binding ∈ Prelude.bindings selection std) : binding.Sound := by
  obtain ⟨trees, bindings, -, hleading, hmem⟩ := Prelude.exists_leading h
  exact Declaration.sound_of_leading hleading binding hmem

/-- Where declared bindings are sound, all bindings in scope are. -/
theorem Scope.sound_ofBindings {bindings : List Binding} (config : Config)
    (h : ∀ binding ∈ bindings, binding.Sound) :
    ∀ binding ∈ (Scope.ofBindings bindings config).all, binding.Sound := by
  intro binding hmem
  rcases Scope.mem_all_ofBindings hmem with hdeclared | ⟨std, hprelude⟩
  · exact h binding hdeclared
  · exact Prelude.sound hprelude

end Qualify
