import Qualify.Proofs.Declaration.Sequence
import Qualify.Proofs.Tree.Rewriting

/-!
# Segments as they are read

A path is put in place of a name as it was declared, so its segments have to be
readable on their own. The segments that declarations bind stand as they are among the
events of the level (`within_of_leading`), so in a level that was read a name is an
identifier, and the `#` of a placeholder stands alone in front of an identifier. The
separators between them are made up, and a path of legible segments whose placeholders
all stand for identifiers is a word (`Path.word_trees`).

## Main definitions

- `Segment.Within` — a segment whose trees stand side by side among events
- `Segment.Legible` — a segment as it is read
- `Segment.isNamed` — a name, or a placeholder for an identifier
-/

namespace Qualify

open Event (Readable Word)

/-- A segment as it is read from a text. -/
def Segment.Legible : Segment → Prop
  | .name ident => Terminal.IsIdent ident.text.toList
  | .placeholder marker tree =>
    marker.text = "#" ∧ ∀ ident, tree = .ident ident →
      marker.spacing = .alone ∧ Terminal.IsIdent ident.text.toList

/-- Whether a segment is a name or a placeholder for an identifier. -/
def Segment.isNamed : Segment → Bool
  | .name _ => true
  | .placeholder _ tree => tree.ident?.isSome

/-! ### Paths are words -/

namespace Event

theorem word_nil : Word [] := ⟨id, id⟩

theorem Word.append {front back : List Event} (hf : Word front) (hb : Word back) :
    Word (front ++ back) := by
  refine ⟨fun h => ?_, fun h => ?_⟩
  · rw [List.append_assoc]
    exact hf.readable (hb.readable h)
  · rw [List.append_assoc] at h
    exact hb.closes (hf.closes h)

end Event

theorem Segment.word_trees {segment : Segment} (h : segment.Legible)
    (hnamed : segment.isNamed = true) : Word (Forest.events segment.trees) := by
  cases segment with
  | name ident => exact ⟨fun hrest => .ident h hrest, Event.Closes.of_ident⟩
  | placeholder marker tree =>
    obtain ⟨ident, hident⟩ := Option.isSome_iff_exists.mp hnamed
    obtain rfl := Declaration.exists_ident_of_ident? hident
    obtain ⟨halone, hname⟩ := h.2 ident rfl
    refine ⟨fun hrest => ?_, fun hcloses => ?_⟩
    · exact .alone (c := '#') (by decide) (by rw [h.1]; rfl) halone (.ident hname hrest)
    · exact (hcloses.of_punct (by rw [h.1]; decide)).of_ident

/-- The second colon in front of a placeholder is joint to its marker. -/
theorem Segment.word_rooted {segment : Segment} (h : segment.Legible)
    (hnamed : segment.isNamed = true) : Word (Forest.events segment.rooted) := by
  have hword := segment.word_trees h hnamed
  have hcolon : ":".toList = [':'] := rfl
  have hstar : ":" ≠ "*" := by decide
  refine ⟨fun hrest => ?_, fun hcloses => ?_⟩
  · have hreadable := hword.readable hrest
    cases segment with
    | name ident =>
      refine .joint (c := ':') (by decide) rfl rfl (fun hc => absurd hc (by decide)) ?_
      exact .alone (c := ':') (by decide) hcolon rfl hreadable
    | placeholder marker tree =>
      refine .joint (c := ':') (by decide) rfl rfl (fun hc => absurd hc (by decide)) ?_
      exact .joint (c := ':') (by decide) hcolon rfl (fun hc => absurd hc (by decide)) hreadable
  · exact hword.closes ((hcloses.of_punct hstar).of_punct hstar)

theorem Path.word_trees {path : Path}
    (h : ∀ segment ∈ path, segment.Legible ∧ segment.isNamed = true) :
    Word (Forest.events path.trees) := by
  cases path with
  | nil => exact Event.word_nil
  | cons first rest =>
    obtain ⟨hlegible, hnamed⟩ := h first List.mem_cons_self
    rw [Path.trees, Forest.events_append]
    refine Event.Word.append ?_ ?_
    · split
      · exact first.word_trees hlegible hnamed
      · exact first.word_rooted hlegible hnamed
    · clear hlegible hnamed
      induction rest with
      | nil => exact Event.word_nil
      | cons segment rest ih =>
        obtain ⟨hlegible, hnamed⟩ := h segment (by simp)
        rw [List.flatMap_cons, Forest.events_append]
        refine (segment.word_rooted hlegible hnamed).append (ih fun other hother => ?_)
        rcases List.mem_cons.mp hother with rfl | hother
        · exact h _ List.mem_cons_self
        · exact h other (by simp [hother])

/-! ### Segments among events -/

/-- A segment whose trees stand side by side among events. -/
def Segment.Within (events : List Event) (segment : Segment) : Prop :=
  segment.Marked ∧ Forest.events segment.trees <:+: events

/-- Among readable events a segment is legible. -/
theorem Segment.Within.legible {events : List Event} {segment : Segment}
    (h : segment.Within events) (hr : Readable events) : segment.Legible := by
  obtain ⟨hm, front, rest, rfl⟩ := h
  rw [List.append_assoc] at hr
  have hback := hr.of_append
  cases segment with
  | name ident =>
    cases hback with
    | ident isIdent _ => exact isIdent
  | placeholder marker tree =>
    refine ⟨hm, fun ident htree => ?_⟩
    subst htree
    have hmarker : marker.text = "#" := hm
    cases hback with
    | lifetime text _ _ _ => exact absurd (text.symm.trans hmarker) (by decide)
    | alone _ _ alone readable =>
      cases readable with
      | ident isIdent _ => exact ⟨alone, isIdent⟩

/-- Where no event is a `#` there are no placeholders. -/
theorem Segment.Within.isPlaceholder_eq_false {events : List Event} {segment : Segment}
    (h : segment.Within events)
    (hpound : ∀ mark : Punct, .token (.punct mark) ∈ events → mark.text ≠ "#") :
    segment.isPlaceholder = false := by
  cases segment with
  | name ident => rfl
  | placeholder marker tree =>
    have hmem : Event.token (.punct marker) ∈ Forest.events [.punct marker, tree] :=
      List.mem_cons_self
    exact absurd h.1 (hpound marker (h.2.subset hmem))

theorem Segment.isNamed_of_isPlaceholder {segment : Segment} (h : segment.isPlaceholder = false) :
    segment.isNamed = true := by
  cases segment with
  | name ident => rfl
  | placeholder marker tree => cases h

namespace Declaration

/-- All segments of the paths of bindings stand among events. -/
def Within (events : List Event) (bindings : List Binding) : Prop :=
  ∀ binding ∈ bindings, ∀ segment ∈ binding.path, segment.Within events

theorem Within.append {events : List Event} {front back : List Binding}
    (hf : Within events front) (hb : Within events back) : Within events (front ++ back) := by
  intro binding hmem
  rcases List.mem_append.mp hmem with hmem | hmem
  · exact hf binding hmem
  · exact hb binding hmem

variable {events : List Event}

theorem infix_left {front back : Forest} (h : Forest.events (front ++ back) <:+: events) :
    Forest.events front <:+: events := by
  rw [Forest.events_append] at h
  exact (List.prefix_append _ _).isInfix.trans h

theorem infix_right {front back : Forest} (h : Forest.events (front ++ back) <:+: events) :
    Forest.events back <:+: events := by
  rw [Forest.events_append] at h
  exact (List.suffix_append _ _).isInfix.trans h

theorem infix_tail {tree : Tree} {rest : Forest} (h : Forest.events (tree :: rest) <:+: events) :
    Forest.events rest <:+: events := by
  rw [← List.singleton_append] at h
  exact infix_right h

theorem infix_inner {delimiter : Delimiter} {inner : Forest} {span : Span}
    (h : Forest.events [.group delimiter inner span] <:+: events) :
    Forest.events inner <:+: events := by
  rw [Forest.events_singleton, Tree.events] at h
  refine List.IsInfix.trans ?_ h
  exact List.infix_cons (List.prefix_append _ _).isInfix

theorem Led.within {front : List Segment} {lead : Forest} (h : Led front lead)
    (hi : Forest.events lead <:+: events) : ∀ segment ∈ front, segment.Within events := by
  induction h with
  | nil => exact List.forall_mem_nil _
  | cons marked separate led ih =>
    intro other hother
    rcases List.mem_cons.mp hother with rfl | hother
    · exact ⟨marked, infix_left hi⟩
    · have hseparated := infix_right hi
      have hlead := infix_tail (infix_tail hseparated)
      exact ih hlead other hother

theorem mem_of_mem_dropSelf {path : Path} {segment : Segment} (h : segment ∈ path.dropSelf) :
    segment ∈ path := by
  rw [Path.dropSelf] at h
  split at h
  · exact List.dropLast_subset _ h
  · exact h

/-- The segments of a chain stand where those of the path around it and its own do. -/
theorem within_path {outer : Path} {front : List Segment} {last : Segment}
    (houter : ∀ segment ∈ outer, segment.Within events)
    (hfront : ∀ segment ∈ front, segment.Within events) (hlast : last.Within events) :
    ∀ segment ∈ Clause.path outer front last, segment.Within events := by
  intro segment hmem
  have hmem := mem_of_mem_dropSelf hmem
  simp only [List.mem_append, List.mem_singleton] at hmem
  rcases hmem with (hmem | hmem) | rfl
  · exact houter segment hmem
  · exact hfront segment hmem
  · exact hlast

theorem within_plainBinding {path : Path} (h : ∀ segment ∈ path, segment.Within events) :
    Within events (Clause.plainBinding path) := by
  intro binding hmem
  rw [Clause.plainBinding] at hmem
  split at hmem
  · obtain rfl := List.mem_singleton.mp hmem
    exact h
  · cases hmem

mutual

theorem Clause.Spelled.within {clause : Clause} {trees : Forest} {outer : Path}
    (houter : ∀ segment ∈ outer, segment.Within events)
    (hi : Forest.events trees <:+: events) :
    Clause.Spelled clause trees → Within events (clause.bindings outer)
  | .group span led spelled => by
    have hgroup := infix_right hi
    have hlead := infix_left hi
    refine Clauses.Spelled.within ?_ (infix_inner hgroup) spelled
    intro segment hmem
    rcases List.mem_append.mp hmem with hmem | hmem
    · exact houter segment hmem
    · exact led.within hlead segment hmem
  | .plain led marked => by
    have hlead := infix_left hi
    have hlast := infix_right hi
    exact within_plainBinding (within_path houter (led.within hlead) ⟨marked, hlast⟩)
  | .renamed name led marked as => by
    have hlead := infix_left hi
    have hlast := infix_left (infix_right hi)
    intro binding hmem
    obtain rfl := List.mem_singleton.mp hmem
    exact within_path houter (led.within hlead) ⟨marked, hlast⟩

theorem Clauses.Spelled.within {clauses : List Clause} {trees : Forest} {outer : Path}
    (houter : ∀ segment ∈ outer, segment.Within events)
    (hi : Forest.events trees <:+: events) :
    Clauses.Spelled clauses trees → Within events (Clauses.bindings outer clauses)
  | .nil => List.forall_mem_nil _
  | .cons spelled continued => by
    have hfront := infix_left hi
    have hback := infix_right hi
    have hfirst := Clause.Spelled.within houter hfront spelled
    exact hfirst.append (Clauses.Continued.within houter hback continued)

theorem Clauses.Continued.within {clauses : List Clause} {trees : Forest} {outer : Path}
    (houter : ∀ segment ∈ outer, segment.Within events)
    (hi : Forest.events trees <:+: events) :
    Clauses.Continued clauses trees → Within events (Clauses.bindings outer clauses)
  | .stop => List.forall_mem_nil _
  | .comma _ spelled => Clauses.Spelled.within houter (infix_tail hi) spelled

end

theorem Spelled.within {clauses : List Clause} {used : Forest} (h : Spelled clauses used)
    (hi : Forest.events used <:+: events) : Within events (Clauses.bindings [] clauses) := by
  cases h with
  | relative use spelled ended =>
    have hitems := infix_left (infix_tail hi)
    exact spelled.within (List.forall_mem_nil _) hitems
  | rooted use separate spelled ended =>
    have hitems := infix_left (infix_tail (infix_tail (infix_tail hi)))
    exact spelled.within (List.forall_mem_nil _) hitems

theorem Sequence.within {style : Style} {clauses : List Clause} {front : Forest}
    (h : Sequence style clauses front) (hi : Forest.events front <:+: events) :
    Within events (Clauses.bindings [] clauses) := by
  induction h with
  | nil => exact List.forall_mem_nil _
  | cons introduced spelled valid behind ih =>
    have hdeclared := infix_right hi
    rw [Clauses.bindings_append]
    exact (spelled.within (infix_left hdeclared)).append (ih (infix_right hdeclared))

/-- The segments that declarations bind stand among the events of the level, and what
is left is the end of the level. -/
theorem within_of_leading {style : Style} {stop : Span} {trees tail : Forest}
    {bindings : List Binding} (h : leading style stop trees = .ok (bindings, tail))
    (hi : Forest.events trees <:+: events) :
    Within events bindings ∧ ∃ front, trees = front ++ tail := by
  obtain ⟨clauses, front, rfl, hsequence, rfl, -⟩ := sequence_of_leading h
  exact ⟨hsequence.within (infix_left hi), front, rfl⟩

end Declaration

end Qualify
