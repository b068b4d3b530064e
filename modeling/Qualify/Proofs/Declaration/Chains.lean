import Qualify.Proofs.Declaration.Reading
import Qualify.Proofs.Tree.Nesting

/-!
# Declarations and chains

Between its `use` and its `;` a declaration is meant to hold one chain, and commas are
meant for braces. The reader keeps no such difference: on the level of the declaration it
goes on behind a comma as it does inside braces, and it takes no items for a declaration of
none. What it accepts is one chain exactly where there is something to read and no comma
stands on the level, other than as the tree of a placeholder (`chain_of_single_iff`).

## Main definitions

- `Declaration.body` — the trees between `use`, with `::` or without, and `;`
- `Forest.hasComma` — whether a comma stands on a level
-/

namespace Qualify

/-- Whether a comma stands on a level, other than as the tree of a placeholder. -/
def Forest.hasComma : Forest → Bool
  | [] => false
  | [tree] => tree.isPunct ","
  | tree :: next :: rest =>
    if tree.isPunct "#" then hasComma rest else tree.isPunct "," || hasComma (next :: rest)

namespace Declaration

/-- The trees between the `use` of a declaration, with a separator behind it or without,
and the last tree of the declaration. -/
def body (trees : Forest) : Forest := (dropSeparator trees.tail).dropLast

/-! ### Commas on a level -/

theorem hasComma_cons {tree : Tree} (rest : Forest) (h : tree.isPunct "#" = false) :
    Forest.hasComma (tree :: rest) = (tree.isPunct "," || Forest.hasComma rest) := by
  cases rest with
  | nil => rw [Forest.hasComma, Forest.hasComma, Bool.or_false]
  | cons next rest => rw [Forest.hasComma, h, if_neg Bool.false_ne_true]

theorem hasComma_placeholder {mark : Tree} (tree : Tree) (rest : Forest)
    (h : mark.isPunct "#" = true) :
    Forest.hasComma (mark :: tree :: rest) = Forest.hasComma rest := by
  rw [Forest.hasComma, if_pos h]

theorem hasComma_comma {comma : Tree} (rest : Forest) (h : comma.isPunct "," = true) :
    Forest.hasComma (comma :: rest) = true := by
  rw [hasComma_cons rest (isPunct_eq_false_of_isPunct "#" h (by decide)), h, Bool.true_or]

theorem hasComma_segment {segment : Segment} (rest : Forest) (h : segment.Marked) :
    Forest.hasComma (segment.trees ++ rest) = Forest.hasComma rest := by
  cases segment with
  | name ident => exact hasComma_cons rest rfl
  | placeholder marker tree => exact hasComma_placeholder tree rest (decide_eq_true h)

theorem hasComma_separator {first second : Tree} (rest : Forest) (h : first.Separate second) :
    Forest.hasComma (first :: second :: rest) = Forest.hasComma rest := by
  have hfirst := isPunct_of_isPunctSpaced h.1
  rw [hasComma_cons _ (isPunct_eq_false_of_isPunct "#" hfirst (by decide)),
    isPunct_eq_false_of_isPunct "," hfirst (by decide),
    hasComma_cons _ (isPunct_eq_false_of_isPunct "#" h.2 (by decide)),
    isPunct_eq_false_of_isPunct "," h.2 (by decide), Bool.false_or, Bool.false_or]

theorem Led.hasComma {front : List Segment} {lead : Forest} (h : Led front lead)
    (rest : Forest) : Forest.hasComma (lead ++ rest) = Forest.hasComma rest := by
  induction h with
  | nil => rfl
  | cons marked separate led ih =>
    rw [List.append_assoc, hasComma_segment _ marked, List.cons_append, List.cons_append,
      hasComma_separator _ separate, ih]

/-- A chain puts no comma on its level: those in braces are on a level of their own. -/
theorem Clause.Spelled.hasComma {clause : Clause} {trees : Forest} (h : clause.Spelled trees)
    (rest : Forest) : Forest.hasComma (trees ++ rest) = Forest.hasComma rest := by
  cases h with
  | group span led spelled =>
    rw [List.append_assoc, led.hasComma]
    exact hasComma_cons rest rfl
  | plain led marked => rw [List.append_assoc, led.hasComma, hasComma_segment rest marked]
  | @renamed front last lead word name led marked as =>
    rw [List.append_assoc, List.append_assoc, led.hasComma, hasComma_segment _ marked]
    have hpound := isPunct_eq_false_of_isIdent "#" as
    have hcomma := isPunct_eq_false_of_isIdent "," as
    calc Forest.hasComma (word :: .ident name :: rest)
      _ = Forest.hasComma (.ident name :: rest) := by
        rw [hasComma_cons _ hpound, hcomma, Bool.false_or]
      _ = Forest.hasComma rest := hasComma_cons rest rfl

theorem Clause.Spelled.ne_nil {clause : Clause} {trees : Forest} (h : clause.Spelled trees) :
    trees ≠ [] := by
  rintro rfl
  cases h.segmentFollows []

/-- Items are one chain exactly when there are some and no comma stands between them or
behind them. -/
theorem Clauses.Spelled.exists_chain_iff {clauses : List Clause} {used : Forest}
    (h : Clauses.Spelled clauses used) :
    (∃ clause, Clause.Spelled clause used) ↔ used ≠ [] ∧ used.hasComma = false := by
  constructor
  · rintro ⟨clause, hclause⟩
    have hcomma := hclause.hasComma []
    rw [List.append_nil] at hcomma
    exact ⟨hclause.ne_nil, hcomma⟩
  · rintro ⟨hne, hcomma⟩
    cases h with
    | nil => exact absurd rfl hne
    | @cons clause clauses trees rest spelled continued =>
      cases continued with
      | stop =>
        rw [List.append_nil]
        exact ⟨clause, spelled⟩
      | comma comma others =>
        rw [spelled.hasComma, hasComma_comma _ comma] at hcomma
        cases hcomma

/-! ### Whole declarations -/

theorem Spelled.body {clauses : List Clause} {used : Forest} (h : Spelled clauses used) :
    Clauses.Spelled clauses (Declaration.body used) := by
  cases h with
  | @relative trees word semicolon use spelled ended =>
    have hbody : Declaration.body (word :: (trees ++ [semicolon])) = trees := by
      rw [Declaration.body, List.tail_cons, dropSeparator_of_spelled [] spelled ended,
        List.dropLast_concat]
    rw [hbody]
    exact spelled
  | @rooted trees word first second semicolon use separate spelled ended =>
    have hbody : Declaration.body (word :: first :: second :: (trees ++ [semicolon])) = trees := by
      rw [Declaration.body, List.tail_cons, dropSeparator_separate _ separate,
        List.dropLast_concat]
    rw [hbody]
    exact spelled

theorem item_of_single {trees : Forest} {bindings : List Binding}
    (h : single trees = .ok bindings) : item {} trees = .ok (bindings, []) := by
  unfold single at h
  split at h
  · cases h
  · next hitem =>
    cases h
    exact hitem
  · cases h

/-- What a declaration that is read holds between its `use` and its `;` are chains with
commas between them and maybe behind them, as the grammar lists them. They are one chain
exactly when there is a tree to read and no comma stands on the level. -/
theorem chain_of_single_iff {trees : Forest} {bindings : List Binding}
    (h : single trees = .ok bindings) :
    (∃ clauses, Spelled clauses trees ∧ Clauses.Spelled clauses (body trees) ∧
      Clauses.Valid [] clauses ∧ bindings = Clauses.bindings [] clauses) ∧
    ((∃ clause, Clause.Spelled clause (body trees)) ↔
      body trees ≠ [] ∧ (body trees).hasComma = false) := by
  obtain ⟨clauses, used, hused, hspelled, hvalid, hbindings⟩ := spelled_of_item (item_of_single h)
  rw [List.append_nil] at hused
  subst hused
  have hbody := hspelled.body
  exact ⟨⟨clauses, hspelled, hbody, hvalid, hbindings⟩, hbody.exists_chain_iff⟩

/-- Two chains with a comma between them are read as one declaration, and so is nothing at
all; neither is a chain. -/
theorem chain_of_single_iff_accepted :
    (∃ trees bindings, Forest.lex none "use a, b;" = .ok trees ∧ single trees = .ok bindings ∧
      bindings.length = 2 ∧ ¬ ∃ clause, Clause.Spelled clause (body trees)) ∧
    ∃ trees, Forest.lex none "use ;" = .ok trees ∧ single trees = .ok [] ∧
      ¬ ∃ clause, Clause.Spelled clause (body trees) := by
  refine ⟨?_, ?_⟩
  · have hcheck : ((Forest.lex none "use a, b;").toOption.bind fun trees =>
        (single trees).toOption.map fun bindings => (bindings.length, (body trees).hasComma)) =
          some (2, true) := by
      decide +kernel
    obtain ⟨trees, hlex, hcheck⟩ := Option.bind_eq_some_iff.mp hcheck
    obtain ⟨bindings, hsingle, hcheck⟩ := Option.map_eq_some_iff.mp hcheck
    obtain ⟨hlength, hcomma⟩ := Prod.mk.inj hcheck
    have hsingle := eq_ok_of_toOption hsingle
    refine ⟨trees, bindings, eq_ok_of_toOption hlex, hsingle, hlength, fun hchain => ?_⟩
    have hnone := ((chain_of_single_iff hsingle).2.mp hchain).2
    rw [hcomma] at hnone
    cases hnone
  · have hcheck : ((Forest.lex none "use ;").toOption.map fun trees =>
        ((single trees).toOption, body trees)) = some (some [], []) := by
      decide +kernel
    obtain ⟨trees, hlex, hcheck⟩ := Option.map_eq_some_iff.mp hcheck
    obtain ⟨hsingle, hbody⟩ := Prod.mk.inj hcheck
    have hsingle := eq_ok_of_toOption hsingle
    refine ⟨trees, eq_ok_of_toOption hlex, hsingle, fun hchain => ?_⟩
    exact ((chain_of_single_iff hsingle).2.mp hchain).1 hbody

end Declaration

end Qualify
