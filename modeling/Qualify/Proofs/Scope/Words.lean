import Qualify.Scope
import Qualify.Proofs.Declaration.Legible
import Qualify.Proofs.Tree.RoundTrip

/-!
# Names that stand for words

What a name in scope is replaced by comes from a declaration of the body or from the
prelude. Both were read from a text, so the paths are words as long as no placeholder
is for anything but an identifier. The prelude has no placeholders at all: a `#` among
its tokens would be one in its lines.
-/

namespace Qualify

open Event (Readable Word)

/-- A scope in which every name stands for a word. -/
def Scope.Words (scope : Scope) : Prop :=
  ∀ {name : String} {binding : Binding}, scope.lookup? name = some binding →
    Word (Forest.events binding.path.trees)

theorem Text.mem_of_mem_unifyChars {c : Char} {text : List Char} (h : c ∈ Text.unifyChars text)
    (hc : c ≠ '\n') : c ∈ text := by
  fun_induction Text.unifyChars text with
  | case1 => exact h
  | case2 rest ih =>
    rcases List.mem_cons.mp h with rfl | h
    · exact absurd rfl hc
    · exact List.mem_cons_of_mem _ (List.mem_cons_of_mem _ (ih h))
  | case3 d rest hcrlf ih =>
    rcases List.mem_cons.mp h with h | h
    · split at h
      · exact absurd h hc
      · exact List.mem_cons.mpr (.inl h)
    · exact List.mem_cons_of_mem _ (ih h)

theorem Text.mem_ofLines {c : Char} {lines : List String} (h : c ∈ (Text.ofLines lines).toList)
    (hc : c ≠ '\n') : ∃ line ∈ lines, c ∈ line.toList := by
  rw [Text.ofLines, String.toList_join, List.mem_flatMap] at h
  obtain ⟨written, hwritten, hmem⟩ := h
  obtain ⟨line, hline, rfl⟩ := List.mem_map.mp hwritten
  refine ⟨line, hline, ?_⟩
  rw [String.toList_append, List.mem_append] at hmem
  rcases hmem with hmem | hmem
  · exact hmem
  · exact absurd (List.mem_singleton.mp hmem) hc

theorem Declaration.exists_of_ofText {file : Option String} {source : String}
    {bindings : List Binding} (h : Declaration.ofText file source = .ok bindings) :
    ∃ trees, Forest.lex file source = .ok trees ∧
      Declaration.leading .bare {} trees = .ok (bindings, []) := by
  rw [Declaration.ofText] at h
  split at h
  · cases h
  · next trees hlex =>
    split at h
    · cases h
    · next hleading =>
      cases h
      exact ⟨trees, hlex, hleading⟩
    · cases h

theorem Bundle.ofText_of_mem {bundle : Bundle} {binding : Binding} (h : binding ∈ bundle.bindings) :
    ∃ bindings, Declaration.ofText (some bundle.name) (Text.unifyNewlines bundle.source) =
      .ok bindings ∧ binding ∈ bindings := by
  unfold Bundle.bindings Bundle.load at h
  split at h
  · cases h
  · next bindings htext => exact ⟨bindings, htext, h⟩

/-- A path of segments that were read, all names or placeholders for identifiers, is a
word. -/
theorem Segment.Within.word_trees {events : List Event} {path : Path}
    (h : ∀ segment ∈ path, segment.Within events) (hr : Readable events)
    (hnamed : ∀ segment ∈ path, segment.isNamed = true) : Word (Forest.events path.trees) :=
  Path.word_trees fun segment hmem => ⟨(h segment hmem).legible hr, hnamed segment hmem⟩

/-- A bundle without a `#` in its lines has no placeholders. -/
theorem Bundle.isPlaceholder_eq_false {bundle : Bundle} {lines : List String}
    (hsource : bundle.source = Text.ofLines lines) (hpound : ∀ line ∈ lines, '#' ∉ line.toList)
    {binding : Binding} (h : binding ∈ bundle.bindings) :
    ∀ segment ∈ binding.path, segment.isPlaceholder = false := by
  obtain ⟨bindings, htext, hmem⟩ := Bundle.ofText_of_mem h
  obtain ⟨trees, hlex, hleading⟩ := Declaration.exists_of_ofText htext
  have hwithin := (Declaration.within_of_leading hleading List.infix_rfl).1 binding hmem
  intro segment hsegment
  apply (hwithin segment hsegment).isPlaceholder_eq_false
  intro mark hmark htext
  -- The `#` would have to stand in one of the lines.
  have hchar : '#' ∈ (Text.unifyNewlines bundle.source).toList :=
    Forest.mem_source_of_lex hlex hmark (by rw [Token.text, htext]; decide)
  rw [Text.unifyNewlines, String.toList_ofList, hsource] at hchar
  have hlines := Text.mem_of_mem_unifyChars hchar (by decide)
  obtain ⟨line, hline, hmem⟩ := Text.mem_ofLines hlines (by decide)
  exact hpound line hline hmem

/-- The prelude comes from bundles without a `#` in their lines. -/
theorem Prelude.exists_bundle {selection : Selection} {std : Bool} {binding : Binding}
    (h : binding ∈ Prelude.bindings selection std) :
    ∃ bundle lines, binding ∈ Bundle.bindings bundle ∧ bundle.source = Text.ofLines lines ∧
      ∀ line ∈ lines, '#' ∉ line.toList := by
  simp only [Prelude.bindings, List.mem_append, List.mem_ite_nil_right] at h
  rcases h with ⟨-, h⟩ | ⟨-, h⟩ | ⟨-, h⟩
  · exact ⟨Bundle.core, _, h, rfl, by decide +kernel⟩
  · exact ⟨Bundle.std, _, h, rfl, by decide +kernel⟩
  · exact ⟨Bundle.edition, _, h, rfl, by decide +kernel⟩

theorem Prelude.isPlaceholder_eq_false {selection : Selection} {std : Bool} {binding : Binding}
    (h : binding ∈ Prelude.bindings selection std) :
    ∀ segment ∈ binding.path, segment.isPlaceholder = false := by
  obtain ⟨bundle, lines, hmem, hsource, hpound⟩ := Prelude.exists_bundle h
  exact Bundle.isPlaceholder_eq_false hsource hpound hmem

/-- What the prelude binds is declared by trees that were read from a text. -/
theorem Prelude.exists_leading {selection : Selection} {std : Bool} {binding : Binding}
    (h : binding ∈ Prelude.bindings selection std) :
    ∃ trees bindings, Readable (Forest.events trees) ∧
      Declaration.leading .bare {} trees = .ok (bindings, []) ∧ binding ∈ bindings := by
  obtain ⟨bundle, lines, hmem, -, -⟩ := Prelude.exists_bundle h
  obtain ⟨bindings, htext, hmem⟩ := Bundle.ofText_of_mem hmem
  obtain ⟨trees, hlex, hleading⟩ := Declaration.exists_of_ofText htext
  exact ⟨trees, bindings, Forest.readable_of_lex hlex, hleading, hmem⟩

/-- The prelude binds words. -/
theorem Prelude.words {selection : Selection} {std : Bool} {binding : Binding}
    (h : binding ∈ Prelude.bindings selection std) : Word (Forest.events binding.path.trees) := by
  obtain ⟨trees, bindings, hr, hleading, hmem⟩ := Prelude.exists_leading h
  have hwithin := (Declaration.within_of_leading hleading List.infix_rfl).1 binding hmem
  refine Segment.Within.word_trees hwithin hr ?_
  intro segment hsegment
  exact Segment.isNamed_of_isPlaceholder (Prelude.isPlaceholder_eq_false h segment hsegment)

theorem Scope.mem_all_ofBindings {bindings : List Binding} {config : Config} {binding : Binding}
    (h : binding ∈ (Scope.ofBindings bindings config).all) :
    binding ∈ bindings ∨ ∃ std, binding ∈ Prelude.bindings config.prelude std := by
  rcases List.mem_append.mp h with hmem | hmem
  · exact .inl (List.mem_filter.mp hmem).1
  · exact .inr ⟨_, (List.mem_ite_nil_right.mp hmem).2⟩

/-- Where declared names stand for words, all names in scope do. -/
theorem Scope.words_ofBindings {bindings : List Binding} (config : Config)
    (h : ∀ binding ∈ bindings, Word (Forest.events binding.path.trees)) :
    (Scope.ofBindings bindings config).Words := by
  intro name binding hlookup
  rcases Scope.mem_all_ofBindings (List.mem_of_find?_eq_some hlookup) with hmem | ⟨std, hmem⟩
  · exact h binding hmem
  · exact Prelude.words hmem

end Qualify
