import Qualify.Proofs.Declaration.Sequence

/-!
# Where failures are reported

A failure is reported at the next tree, at the end of its level, or at a segment that was
read before: a `self` with nothing in front of it, or the marker of a placeholder that
would have to name a path. That segment may stand several groups further out, so the
readers are followed with the spans of all segments that the path holds (`Located`). The
end of a level in braces is reported at the braces, which belong to the level around it;
only the end of the outermost level has no tree (`located_of_leading`).

## Main definitions

- `Forest.spans` — the spans of the trees of a level, at any depth
- `Declaration.Located` — a failure that is reported where the reader has been
-/

namespace Qualify

mutual

/-- The spans of a tree and of the trees inside it. -/
def Tree.spans : Tree → List Span
  | .token value => [value.span]
  | .group _ inner span => span :: Forest.spans inner

/-- The spans of the trees of a level, at any depth. -/
def Forest.spans : Forest → List Span
  | [] => []
  | tree :: rest => tree.spans ++ Forest.spans rest

end

theorem Forest.spans_append (front back : Forest) :
    Forest.spans (front ++ back) = Forest.spans front ++ Forest.spans back := by
  induction front with
  | nil => rfl
  | cons tree front ih => rw [List.cons_append, Forest.spans, Forest.spans, ih, List.append_assoc]

/-- Looking at no more than the next tree stays inside the level. -/
theorem Forest.mem_spans_of_take {span : Span} {taken left : Forest}
    (h : span ∈ Forest.spans (taken ++ left.take 1)) : span ∈ Forest.spans (taken ++ left) := by
  rw [← List.take_append_drop 1 left, ← List.append_assoc, Forest.spans_append]
  exact List.mem_append_left _ h

theorem Tree.span_mem_spans (tree : Tree) : tree.span ∈ tree.spans := by
  cases tree <;> exact List.mem_cons_self

/-- Where a segment stands: at its name, or at its marker. -/
def Segment.span : Segment → Span
  | .name ident => ident.span
  | .placeholder marker _ => marker.span

namespace Declaration

/-- A failure that is reported where the reader has been. What is left is an end of the
level; the span is one that was `seen` before, the span of a tree that was taken off the
level, at any depth, or of the next one, or, with nothing left, the end of the level. -/
def Located (stop : Span) (seen : List Span) (trees : Forest) (failure : Failure) : Prop :=
  ∃ taken, trees = taken ++ failure.left ∧
    (failure.error.span ∈ seen ∨ failure.error.span ∈ Forest.spans (taken ++ failure.left.take 1) ∨
      failure.left = [] ∧ failure.error.span = stop)

/-! ### Reporting a failure -/

section

variable {stop : Span} {seen : List Span} {trees : Forest} {failure : Failure}

/-- A failure about what comes next. -/
theorem located_next (stop : Span) (seen : List Span) (cause : Cause) (trees : Forest) :
    Located stop seen trees ⟨⟨cause, spanAt stop trees⟩, trees⟩ := by
  refine ⟨[], rfl, .inr ?_⟩
  cases trees with
  | nil => exact .inr ⟨rfl, rfl⟩
  | cons tree rest => exact .inl (List.mem_append_left _ tree.span_mem_spans)

/-- A failure about something that was read before. -/
theorem located_seen {error : SyntaxError} (trees : Forest) (h : error.span ∈ seen) :
    Located stop seen trees ⟨error, trees⟩ :=
  ⟨[], rfl, .inl h⟩

/-- The trees that a reader has taken off are seen by what goes on behind them. -/
theorem Located.behind (front : Forest)
    (h : Located stop (Forest.spans front ++ seen) trees failure) :
    Located stop seen (front ++ trees) failure := by
  obtain ⟨taken, rfl, hspan⟩ := h
  refine ⟨front ++ taken, (List.append_assoc ..).symm, ?_⟩
  rw [List.append_assoc, Forest.spans_append]
  rcases hspan with hspan | hspan | hspan
  · rcases List.mem_append.mp hspan with hfront | hseen
    · exact .inr (.inl (List.mem_append_left _ hfront))
    · exact .inl hseen
  · exact .inr (.inl (List.mem_append_right _ hspan))
  · exact .inr (.inr hspan)

end

/-! ### Reporting at a segment -/

theorem span_of_target_error {front : Path} {last : Segment} {error : SyntaxError}
    (h : Binding.target front last = .error error) : error.span = last.span := by
  unfold Binding.target at h
  split at h
  · split at h
    · split at h
      · cases h
        rfl
      · cases h
    · cases h
  · cases h

/-- A chain that cannot be bound is reported at one of its segments. -/
theorem exists_span_of_plain_error {front : Path} {last : Segment} {error : SyntaxError}
    (h : Binding.plain front last = .error error) :
    ∃ segment ∈ front ++ [last], error.span = segment.span := by
  unfold Binding.plain at h
  split at h
  · next htarget =>
    cases h
    exact ⟨last, List.mem_concat_self, span_of_target_error htarget⟩
  · next path htarget =>
    obtain ⟨-, rfl⟩ := target_eq_ok_iff.mp htarget
    split at h
    · next hname =>
      cases h
      -- The last segment of the path is one of the chain, with or without a `self` at the end.
      have hmem : (Clause.path front [] last).getLast?.getD last ∈ front ++ [last] := by
        cases hlast : (Clause.path front [] last).getLast? with
        | none => exact List.mem_concat_self
        | some segment =>
          have hsegment := List.mem_of_getLast? hlast
          rw [Clause.path, List.append_nil, dropSelf_concat] at hsegment
          split at hsegment
          · exact List.mem_append_left _ hsegment
          · exact hsegment
      refine ⟨_, hmem, ?_⟩
      cases hsegment : (Clause.path front [] last).getLast?.getD last with
      | name ident =>
        rw [hsegment] at hname
        cases hname
      | placeholder marker tree =>
        rw [hsegment] at hname
        cases hname
        rfl
    · cases h

/-! ### Readers of a level -/

/-- The spans of the segments of a path were seen. -/
def Seen (seen : List Span) (path : Path) : Prop := ∀ segment ∈ path, segment.span ∈ seen

theorem Seen.append_left {seen : List Span} {path : Path} (h : Seen seen path)
    (more : List Span) : Seen (more ++ seen) path :=
  fun segment hmem => List.mem_append_right _ (h segment hmem)

theorem Seen.concat {seen : List Span} {path : Path} {last : Segment} (h : Seen seen path)
    (hlast : last.span ∈ seen) : Seen seen (path ++ [last]) := by
  intro segment hmem
  rcases List.mem_append.mp hmem with hmem | hmem
  · exact h segment hmem
  · rw [List.mem_singleton.mp hmem]
    exact hlast

theorem located_semicolon {place : Place} {bindings : List Binding} {tree : Tree} {rest : Forest}
    {failure : Failure} (stop : Span) (seen : List Span)
    (h : semicolon place bindings tree rest = .error failure) :
    Located stop seen (tree :: rest) failure := by
  cases place with
  | top => cases h
  | nested =>
    cases h
    exact located_next stop seen .semicolonInBraces (tree :: rest)

theorem located_plain {seen : List Span} {front : Path} {last : Segment} {error : SyntaxError}
    (stop : Span) (trees : Forest) (hfront : Seen seen front) (hlast : last.span ∈ seen)
    (h : Binding.plain front last = .error error) : Located stop seen trees ⟨error, trees⟩ := by
  obtain ⟨segment, hmem, hspan⟩ := exists_span_of_plain_error h
  refine located_seen trees ?_
  rw [hspan]
  exact hfront.concat hlast segment hmem

mutual

/-- Items that cannot be read are reported in the level or at a segment of the path. -/
theorem located_items (place : Place) (parent path : Path) (stop : Span) :
    ∀ (trees : Forest) {seen : List Span} {failure : Failure}, Seen seen parent → Seen seen path →
      items place parent path stop trees = .error failure → Located stop seen trees failure
  | [], seen, failure, hparent, hpath, h => by
    unfold items at h
    cases h
  | tree :: rest, seen, failure, hparent, hpath, h => by
    unfold items at h
    split at h
    · exact located_semicolon stop seen h
    split at h
    · split at h
      · next error hmembers =>
        cases h
        refine .behind [tree] (located_seen rest ?_)
        rw [Forest.spans, Forest.spans, List.append_nil]
        exact span_of_members_error path tree hpath hmembers
      · have hrest := prepend_eq_error h
        exact .behind [tree] (located_separated .group place parent stop rest
          (hparent.append_left _) hrest)
    split at h
    · cases h
      exact located_next stop seen .glob (tree :: rest)
    split at h
    · next ident _ _ _ =>
      exact .behind [.ident ident] (located_chain place parent path (.name ident) stop rest
        (hparent.append_left _) (hpath.append_left _) List.mem_cons_self h)
    · next marker _ _ _ =>
      split at h
      · split at h
        · cases h
          exact .behind [.punct marker] (located_next stop _ .missingPlaceholder [])
        · next value after =>
          exact .behind [.punct marker, value] (located_chain place parent path
            (.placeholder marker value) stop after (hparent.append_left _) (hpath.append_left _)
            List.mem_cons_self h)
      · cases h
        exact located_next stop seen _ (.punct marker :: rest)
    · cases h
      exact located_next stop seen _ (tree :: rest)
termination_by trees => sizeOf trees

/-- So is what cannot be read behind a segment. -/
theorem located_chain (place : Place) (parent front : Path) (last : Segment) (stop : Span) :
    ∀ (trees : Forest) {seen : List Span} {failure : Failure}, Seen seen parent →
      Seen seen front → last.span ∈ seen →
        chain place parent front last stop trees = .error failure → Located stop seen trees failure
  | [], seen, failure, hparent, hfront, hlast, h => by
    unfold chain at h
    split at h
    · next hplain =>
      cases h
      exact located_plain stop [] hfront hlast hplain
    · cases h
  | tree :: rest, seen, failure, hparent, hfront, hlast, h => by
    have hlast' : last.span ∈ Forest.spans [tree] ++ seen := List.mem_append_right _ hlast
    unfold chain at h
    split at h
    · split at h
      · next hplain =>
        cases h
        exact .behind [tree] (located_plain stop rest (hfront.append_left _) hlast' hplain)
      · have hrest := prepend_eq_error h
        exact .behind [tree] (located_items place parent parent stop rest
          (hparent.append_left _) (hparent.append_left _) hrest)
    split at h
    · split at h
      · next hplain =>
        cases h
        exact located_plain stop (tree :: rest) hfront hlast hplain
      · exact located_semicolon stop seen h
      · exact located_semicolon stop seen h
    split at h
    · split at h
      · next htarget =>
        cases h
        refine .behind [tree] (located_seen rest ?_)
        rw [span_of_target_error htarget]
        exact hlast'
      · split at h
        · cases h
          refine .behind [tree] (located_seen [] ?_)
          exact List.mem_append_left _ (List.mem_append_left _ tree.span_mem_spans)
        · next value after =>
          split at h
          · cases h
            exact .behind [tree] (located_next stop _ _ (value :: after))
          · have hrest := prepend_eq_error h
            exact .behind [tree, value] (located_separated .renaming place parent stop after
              (hparent.append_left _) hrest)
    split at h
    · next second after =>
      split at h
      · split at h
        · cases h
          exact located_next stop seen .selfContinued (tree :: second :: after)
        split at h
        · refine .behind [tree, second] (located_items place parent (front ++ [last]) stop after
            (hparent.append_left _) ?_ h)
          exact (hfront.append_left _).concat (List.mem_append_right _ hlast)
        · cases h
          exact .behind [tree, second] (located_next stop _ _ after)
      · cases h
        exact located_next stop seen _ (tree :: second :: after)
    · cases h
      exact located_next stop seen _ [tree]
termination_by trees => sizeOf trees

/-- So is what cannot be read behind an alias or a group. -/
theorem located_separated (ended : Ended) (place : Place) (parent : Path) (stop : Span) :
    ∀ (trees : Forest) {seen : List Span} {failure : Failure}, Seen seen parent →
      separated ended place parent stop trees = .error failure → Located stop seen trees failure
  | [], seen, failure, hparent, h => by
    unfold separated at h
    cases h
  | tree :: rest, seen, failure, hparent, h => by
    unfold separated at h
    split at h
    · exact located_semicolon stop seen h
    split at h
    · exact .behind [tree] (located_items place parent parent stop rest
        (hparent.append_left _) (hparent.append_left _) h)
    split at h
    · cases h
      exact located_next stop seen .renamedGroup (tree :: rest)
    split at h
    · cases h
      exact located_next stop seen .aliasContinued (tree :: rest)
    · cases h
      exact located_next stop seen _ (tree :: rest)
termination_by trees => sizeOf trees

/-- What cannot be read in braces is reported inside them, at them, or at a segment of the
path in front of them. -/
theorem span_of_members_error (path : Path) :
    ∀ (tree : Tree) {seen : List Span} {error : SyntaxError}, Seen seen path →
      members path tree = .error error → error.span ∈ tree.spans ++ seen
  | .token token, seen, error, hpath, h => by
    unfold members at h
    cases h
  | .group delimiter inner span, seen, error, hpath, h => by
    unfold members at h
    split at h
    · next failure hitems =>
      cases h
      obtain ⟨taken, hinner, hspan⟩ := located_items .nested path path span inner hpath hpath hitems
      rw [Tree.spans, List.cons_append]
      rcases hspan with hseen | hinside | ⟨-, hend⟩
      · exact List.mem_cons_of_mem _ (List.mem_append_right _ hseen)
      · rw [hinner]
        exact List.mem_cons_of_mem _ (List.mem_append_left _ (Forest.mem_spans_of_take hinside))
      · rw [hend]
        exact List.mem_cons_self
    · cases h
termination_by tree => sizeOf tree

end

/-! ### Whole declarations -/

theorem located_finish {bindings : List Binding} {trees : Forest} {failure : Failure} (stop : Span)
    (seen : List Span) (h : finish stop bindings trees = .error failure) :
    Located stop seen trees failure := by
  unfold finish at h
  split at h
  · cases h
    exact located_next stop seen _ []
  · next tree rest =>
    split at h
    · cases h
    · cases h
      exact located_next stop seen _ (tree :: rest)

theorem Located.of_dropSeparator {stop : Span} {trees : Forest} {failure : Failure}
    (h : ∀ seen, Located stop seen (dropSeparator trees) failure) (seen : List Span) :
    Located stop seen trees failure := by
  by_cases hseparator : trees.startsWithSeparator = true
  · obtain ⟨first, second, after, hseparate, rfl⟩ :=
      startsWithSeparator_eq_true_iff.mp hseparator
    have hafter := h (Forest.spans [first, second] ++ seen)
    rw [dropSeparator_separate after hseparate] at hafter
    exact .behind [first, second] hafter
  · have htrees := h seen
    rw [dropSeparator, if_neg hseparator] at htrees
    exact htrees

/-- A declaration that cannot be read is reported behind its `use`. -/
theorem located_item {stop : Span} {word : Tree} {rest : Forest} {failure : Failure}
    (hword : word.isIdent "use" = true) (h : item stop (word :: rest) = .error failure) :
    Located stop [] rest failure := by
  apply Located.of_dropSeparator
  intro seen
  rw [item, if_pos hword] at h
  split at h
  · next hitems =>
    cases h
    exact located_items .top [] [] stop _ (List.forall_mem_nil _) (List.forall_mem_nil _) hitems
  · next bindings left hitems =>
    obtain ⟨clauses, used, htrees, -⟩ := itemsRead_of_items .top [] [] stop _ hitems
    rw [htrees]
    exact .behind used (located_finish stop _ h)

/-- Failures are local. Where the declarations at the front of a level cannot be read, those
in front of the failing one are read, and the failure is reported at a tree of the failing
declaration, at any depth, from its `use` up to the first tree that was not taken off the
level. The only other place is the end of the level, where no tree of the level stands, and
then no trees are left. -/
theorem located_of_leading {style : Style} {stop : Span} {trees : Forest} {failure : Failure}
    (hstop : stop ∉ Forest.spans trees) (h : leading style stop trees = .error failure) :
    ∃ front bindings lead word taken,
      trees = front ++ (lead ++ (word :: taken ++ failure.left)) ∧
      leading style stop front = .ok (bindings, []) ∧
      Introducer style lead ∧ word.isIdent "use" = true ∧
      item stop (word :: taken ++ failure.left) = .error failure ∧
      (failure.error.span ≠ stop ∧
          failure.error.span ∈ Forest.spans (word :: taken ++ failure.left.take 1) ∨
        failure.error.span = stop ∧ failure.left = []) := by
  obtain ⟨clauses, front, lead, word, rest, rfl, hsequence, hlead, hword, hitem⟩ :=
    exists_of_leading_error h
  obtain ⟨taken, rfl, hspan⟩ := located_item hword hitem
  refine ⟨front, _, lead, word, taken, rfl, hsequence.leading_self stop, hlead, hword, hitem, ?_⟩
  rcases hspan with hseen | hinside | ⟨hleft, hend⟩
  · cases hseen
  · refine .inl ⟨?_, List.mem_append_right _ hinside⟩
    intro hend
    apply hstop
    rw [← hend, Forest.spans_append, Forest.spans_append]
    refine List.mem_append_right _ (List.mem_append_right _ (List.mem_append_right _ ?_))
    exact Forest.mem_spans_of_take hinside
  · exact .inr ⟨hend, hleft⟩

/-- A `self` two groups behind the placeholder whose marker is reported, and a declaration
that has not ended with the text. -/
theorem located_of_leading_marker :
    (∃ trees failure front bindings lead word taken,
      Forest.lex none "# use a; # use #x::\x7bb, \x7bself\x7d\x7d; c" = .ok trees ∧
      .unknown ∉ Forest.spans trees ∧ leading .pound .unknown trees = .error failure ∧
      failure.error.cause = .placeholderTail ∧ failure.left.length = 2 ∧
      trees = front ++ (lead ++ (word :: taken ++ failure.left)) ∧
      leading .pound .unknown front = .ok (bindings, []) ∧
      failure.error.span ∈ Forest.spans (word :: taken ++ failure.left.take 1)) ∧
    ∃ trees failure, Forest.lex none "use a::\x7bb\x7d" = .ok trees ∧
      .unknown ∉ Forest.spans trees ∧ leading .bare .unknown trees = .error failure ∧
      failure.error = ⟨.missingSemicolon .nothing, .unknown⟩ ∧ failure.left = [] := by
  constructor
  · have hcheck : ((Forest.lex none "# use a; # use #x::\x7bb, \x7bself\x7d\x7d; c").toOption.map
        fun trees => (decide (Span.unknown ∈ Forest.spans trees),
          match leading .pound .unknown trees with
          | .error failure => some (failure.error.cause, failure.left.length)
          | .ok _ => none)) = some (false, some (.placeholderTail, 2)) := by
      decide +kernel
    obtain ⟨trees, hlex, hcheck⟩ := Option.map_eq_some_iff.mp hcheck
    obtain ⟨hknown, hcheck⟩ := Prod.mk.inj hcheck
    have hknown := of_decide_eq_false hknown
    split at hcheck
    · next failure hread =>
      obtain ⟨hcause, hlength⟩ := Prod.mk.inj (Option.some.inj hcheck)
      obtain ⟨front, bindings, lead, word, taken, htrees, hfront, -, -, -, hspan⟩ :=
        located_of_leading hknown hread
      refine ⟨trees, failure, front, bindings, lead, word, taken, eq_ok_of_toOption hlex, hknown,
        hread, hcause, hlength, htrees, hfront, ?_⟩
      rcases hspan with ⟨-, hspan⟩ | ⟨-, hleft⟩
      · exact hspan
      · rw [hleft] at hlength
        cases hlength
    · cases hcheck
  · have hcheck : ((Forest.lex none "use a::\x7bb\x7d").toOption.map fun trees =>
        (decide (Span.unknown ∈ Forest.spans trees),
          match leading .bare .unknown trees with
          | .error failure => some failure.error
          | .ok _ => none)) = some (false, some ⟨.missingSemicolon .nothing, .unknown⟩) := by
      decide +kernel
    obtain ⟨trees, hlex, hcheck⟩ := Option.map_eq_some_iff.mp hcheck
    obtain ⟨hknown, hcheck⟩ := Prod.mk.inj hcheck
    have hknown := of_decide_eq_false hknown
    split at hcheck
    · next failure hread =>
      have herror := Option.some.inj hcheck
      refine ⟨trees, failure, eq_ok_of_toOption hlex, hknown, hread, herror, ?_⟩
      -- The unknown span is that of no tree, so nothing is left.
      obtain ⟨_, _, _, _, _, -, -, -, -, -, hspan⟩ := located_of_leading hknown hread
      rcases hspan with ⟨hne, -⟩ | ⟨-, hleft⟩
      · exact absurd (congrArg SyntaxError.span herror) hne
      · exact hleft
    · cases hcheck

end Declaration

end Qualify
