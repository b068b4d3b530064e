import Qualify.Proofs.Declaration.Reading
import Qualify.Proofs.Tree.Nesting

/-!
# Declarations one after another

A level starts with a run of declarations, each behind its introducer. `Sequence` says
which trees such a run is written with; `Declaration.leading` reads it off the front of a
level (`sequence_of_leading`) and goes on behind it as if nothing had been read
(`Sequence.leading`), whatever follows. So no reader looks past the `;` of a declaration,
and reading composes with putting levels behind each other (`leading_compose`). Where
reading fails, the declarations in front of the failing one are such a run
(`exists_of_leading_error`).

## Main definitions

- `Sequence` — declarations with their introducers, and the items of all of them
-/

namespace Qualify

namespace Declaration

/-- Declarations that keep the rules, each behind its introducer, and their items in order. -/
inductive Sequence (style : Style) : List Clause → Forest → Prop
  | nil : Sequence style [] []
  | cons {lead used rest : Forest} {clauses others : List Clause}
      (introduced : Introducer style lead) (spelled : Spelled clauses used)
      (valid : Clauses.Valid [] clauses) (behind : Sequence style others rest) :
      Sequence style (clauses ++ others) (lead ++ (used ++ rest))

/-! ### Introducers -/

/-- A declaration starts behind an introducer, with `use`. -/
theorem exists_introducer {style : Style} {trees declared : Forest}
    (h : introduced? style trees = some declared) :
    ∃ lead word rest, Introducer style lead ∧ word.isIdent "use" = true ∧
      declared = word :: rest ∧ trees = lead ++ declared := by
  unfold introduced? at h
  split at h
  · next pound word rest =>
    split at h
    · next hstarts =>
      cases h
      obtain ⟨hpound, hword⟩ := Bool.and_eq_true_iff.mp hstarts
      exact ⟨[pound], word, rest, .pound hpound, hword, rfl, rfl⟩
    · cases h
  · next word rest =>
    split at h
    · next hword =>
      cases h
      exact ⟨[], word, rest, .bare, hword, rfl, rfl⟩
    · cases h
  · cases h

/-- Where no declaration is introduced, no introducer stands in front of a `use`. -/
theorem ne_of_introduced? {style : Style} {trees lead : Forest} {word : Tree}
    (h : introduced? style trees = none) (hlead : Introducer style lead)
    (hword : word.isIdent "use" = true) (rest : Forest) : trees ≠ lead ++ word :: rest := by
  intro htrees
  rw [htrees, hlead.introduced? hword rest] at h
  cases h

/-! ### Reading a run of declarations -/

theorem prepend_nil (reading : Reading) : prepend [] reading = reading := by
  cases reading <;> rfl

theorem prepend_append (front back : List Binding) (reading : Reading) :
    prepend (front ++ back) reading = prepend front (prepend back reading) := by
  cases reading with
  | error failure => rfl
  | ok value => simp only [prepend, List.append_assoc]

theorem Clauses.bindings_append (outer : Path) (front back : List Clause) :
    Clauses.bindings outer (front ++ back) =
      Clauses.bindings outer front ++ Clauses.bindings outer back := by
  induction front with
  | nil => rfl
  | cons clause front ih =>
    rw [List.cons_append, Clauses.bindings, Clauses.bindings, ih, List.append_assoc]

theorem leading_nil (style : Style) (stop : Span) : leading style stop [] = .ok ([], []) := by
  cases style <;> rw [leading] <;> rfl

theorem prepend_eq_error {bindings : List Binding} {reading : Reading} {failure : Failure}
    (h : prepend bindings reading = .error failure) : reading = .error failure := by
  cases reading with
  | ok value => cases h
  | error other => exact h

theorem Clauses.Valid.append {outer : Path} {front back : List Clause}
    (hfront : Clauses.Valid outer front) (hback : Clauses.Valid outer back) :
    Clauses.Valid outer (front ++ back) := by
  induction front with
  | nil => exact hback
  | cons clause front ih => exact ⟨hfront.1, ih hfront.2⟩

theorem Sequence.valid {style : Style} {clauses : List Clause} {front : Forest}
    (h : Sequence style clauses front) : Clauses.Valid [] clauses := by
  induction h with
  | nil => trivial
  | cons introduced spelled valid behind ih => exact valid.append ih

/-- A run of declarations is read, and reading goes on behind it. -/
theorem Sequence.leading {style : Style} {clauses : List Clause} {front : Forest}
    (h : Sequence style clauses front) (stop : Span) (rest : Forest) :
    Declaration.leading style stop (front ++ rest) =
      prepend (Clauses.bindings [] clauses) (Declaration.leading style stop rest) := by
  induction h with
  | nil => exact (prepend_nil _).symm
  | cons introduced spelled valid behind ih =>
    rw [List.append_assoc, List.append_assoc, leading_of_spelled stop _ introduced spelled valid, ih,
      Clauses.bindings_append, prepend_append]

/-- On its own a run of declarations leaves nothing. -/
theorem Sequence.leading_self {style : Style} {clauses : List Clause} {front : Forest}
    (h : Sequence style clauses front) (stop : Span) :
    Declaration.leading style stop front = .ok (Clauses.bindings [] clauses, []) := by
  have hread := h.leading stop []
  rw [List.append_nil, leading_nil, prepend, List.append_nil] at hread
  exact hread

/-- What is read off the front of a level is a run of declarations, and what is left does
not start with one. -/
theorem sequence_of_leading {style : Style} {stop : Span} {trees left : Forest}
    {bindings : List Binding} (h : leading style stop trees = .ok (bindings, left)) :
    ∃ clauses front, trees = front ++ left ∧ Sequence style clauses front ∧
      bindings = Clauses.bindings [] clauses ∧ introduced? style left = none := by
  fun_induction leading style stop trees generalizing bindings with
  | case1 trees hnone =>
    cases h
    exact ⟨[], [], rfl, .nil, rfl, hnone⟩
  | case2 => cases h
  | case3 trees declared hdeclared first behind hitem ih =>
    obtain ⟨more, hmore, rfl⟩ := prepend_eq_ok h
    obtain ⟨lead, word, rest, hlead, -, -, rfl⟩ := exists_introducer hdeclared
    obtain ⟨clauses, used, rfl, hspelled, hvalid, rfl⟩ := spelled_of_item hitem
    obtain ⟨others, front, rfl, hsequence, rfl, hnone⟩ := ih hmore
    refine ⟨clauses ++ others, lead ++ (used ++ front), ?_, .cons hlead hspelled hvalid hsequence,
      (Clauses.bindings_append [] clauses others).symm, hnone⟩
    simp only [List.append_assoc]

/-- Declarations that leave nothing can stand in front of any level. -/
theorem leading_append {style : Style} {place : Span} {front : Forest} {bindings : List Binding}
    (h : leading style place front = .ok (bindings, [])) (stop : Span) (rest : Forest) :
    leading style stop (front ++ rest) = prepend bindings (leading style stop rest) := by
  obtain ⟨clauses, used, hfront, hsequence, rfl, -⟩ := sequence_of_leading h
  rw [List.append_nil] at hfront
  rw [hfront]
  exact hsequence.leading stop rest

/-- Reading fails in a declaration behind a run of declarations. -/
theorem exists_of_leading_error {style : Style} {stop : Span} {trees : Forest} {failure : Failure}
    (h : leading style stop trees = .error failure) :
    ∃ clauses front lead word rest, trees = front ++ (lead ++ word :: rest) ∧
      Sequence style clauses front ∧ Introducer style lead ∧ word.isIdent "use" = true ∧
      item stop (word :: rest) = .error failure := by
  fun_induction leading style stop trees with
  | case1 => cases h
  | case2 trees declared hdeclared error hitem =>
    cases h
    obtain ⟨lead, word, rest, hlead, hword, rfl, rfl⟩ := exists_introducer hdeclared
    exact ⟨[], [], lead, word, rest, rfl, .nil, hlead, hword, hitem⟩
  | case3 trees declared hdeclared first behind hitem ih =>
    obtain ⟨lead, word, rest, hlead, -, -, rfl⟩ := exists_introducer hdeclared
    obtain ⟨clauses, used, rfl, hspelled, hvalid, -⟩ := spelled_of_item hitem
    obtain ⟨others, front, next, start, after, rfl, hsequence, hnext, hstart, hfails⟩ :=
      ih (prepend_eq_error h)
    refine ⟨clauses ++ others, lead ++ (used ++ front), next, start, after, ?_,
      .cons hlead hspelled hvalid hsequence, hnext, hstart, hfails⟩
    simp only [List.append_assoc]

/-- Declarations compose. Trees that are read as declarations with nothing left can be put
in front of any level: the level is read as it is alone, with the same trees left or the
same failure, and their bindings come in front of its own. Conversely, what is read off the
front of a level is read alike on its own, and what is left starts with no declaration. -/
theorem leading_compose (style : Style) (stop : Span) :
    (∀ place front bindings, leading style place front = .ok (bindings, []) →
      ∀ rest, leading style stop (front ++ rest) =
        prepend bindings (leading style stop rest)) ∧
    ∀ place trees bindings left, leading style place trees = .ok (bindings, left) →
      (∀ lead word rest, Introducer style lead → word.isIdent "use" = true →
        left ≠ lead ++ word :: rest) ∧
      ∃ front, trees = front ++ left ∧ leading style stop front = .ok (bindings, []) := by
  constructor
  · intro place front bindings h rest
    exact leading_append h stop rest
  · intro place trees bindings left h
    obtain ⟨clauses, front, htrees, hsequence, rfl, hnone⟩ := sequence_of_leading h
    refine ⟨?_, front, htrees, hsequence.leading_self stop⟩
    intro lead word rest hlead hword
    exact ne_of_introduced? hnone hlead hword rest

/-- A declaration whose placeholder is a `;`, in front of a declaration and a tail that
starts with a `#`. -/
theorem leading_compose_semicolon :
    ∃ front rest bindings more left,
      Forest.lex none "# use #;::\x7ba, b\x7d;" = .ok front ∧
      Forest.lex none "# use c; #c;" = .ok rest ∧
      leading .pound {} front = .ok (bindings, []) ∧ bindings.length = 2 ∧
      leading .pound {} rest = .ok (more, left) ∧ more.length = 1 ∧ left.length = 3 ∧
      leading .pound {} (front ++ rest) = .ok (bindings ++ more, left) ∧
      ∃ used, front ++ rest = used ++ left ∧
        leading .pound {} used = .ok (bindings ++ more, []) := by
  have hcheck : ((Forest.lex none "# use #;::\x7ba, b\x7d;").toOption.bind fun front =>
      (Forest.lex none "# use c; #c;").toOption.bind fun rest =>
        (leading .pound {} front).toOption.bind fun first =>
          (leading .pound {} rest).toOption.map fun second =>
            (first.1.length, first.2, second.1.length, second.2.length)) = some (2, [], 1, 3) := by
    decide +kernel
  obtain ⟨front, hfront, hcheck⟩ := Option.bind_eq_some_iff.mp hcheck
  obtain ⟨rest, hrest, hcheck⟩ := Option.bind_eq_some_iff.mp hcheck
  obtain ⟨⟨bindings, nothing⟩, hfirst, hcheck⟩ := Option.bind_eq_some_iff.mp hcheck
  obtain ⟨⟨more, left⟩, hsecond, hcheck⟩ := Option.map_eq_some_iff.mp hcheck
  simp only [Prod.mk.injEq] at hcheck
  obtain ⟨hbindings, rfl, hmore, hleft⟩ := hcheck
  have hfirst := eq_ok_of_toOption hfirst
  have hsecond := eq_ok_of_toOption hsecond
  obtain ⟨hcompose, hsplit⟩ := leading_compose .pound {}
  have hboth : leading .pound {} (front ++ rest) = .ok (bindings ++ more, left) := by
    rw [hcompose {} front bindings hfirst rest, hsecond, prepend]
  exact ⟨front, rest, bindings, more, left, eq_ok_of_toOption hfront, eq_ok_of_toOption hrest,
    hfirst, hbindings, hsecond, hmore, hleft, hboth, (hsplit {} _ _ _ hboth).2⟩

end Declaration

end Qualify
