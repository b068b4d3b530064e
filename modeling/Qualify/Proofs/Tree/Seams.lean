import Qualify.Proofs.Qualifier.Level
import Qualify.Proofs.Tree.Text

/-!
# Invisible groups in a text

An invisible group has no delimiters of its own, and a qualifier puts its contents in its
place (`Qualifier.qualify_eq_splice`). In a text it leaves a trace all the same: it counts
as a tree of its level, so that a space stands behind it whatever it ends in, and in front
of it whether it shows anything or not. Putting the contents in its place takes out spaces
and nothing else (`Forest.filter_text_splice`), and it takes out none exactly where every seam
of every level fits (`Forest.render_eq_render_splice_iff`).

## Main definitions

- `Forest.splice` — trees with the contents of invisible groups in their place
- `Tree.fits` — the text between a tree and what stands behind it is the same either way
- `Forest.seamless` — every tree at any depth fits
-/

namespace Qualify

open Event (gap)

mutual

/-- What a tree comes to when invisible groups give way to their contents. -/
def Tree.splice : Tree → Forest
  | .token value => [.token value]
  | .group delimiter inner span => Qualifier.regroup delimiter (Forest.splice inner) span

/-- A level whose invisible groups, at any depth, have given way to their contents. -/
def Forest.splice : Forest → Forest
  | [] => []
  | tree :: rest => tree.splice ++ Forest.splice rest

end

/-- Whether the text between a tree and the trees behind it does not tell invisible groups
apart: nothing stands behind it, or it is a joint mark, or it shows something that does not
end in a joint mark and something shows behind it. -/
def Tree.fits (tree : Tree) (rest : Forest) : Bool :=
  rest.isEmpty || tree.isJoint ||
    tree.splice.getLast?.any (!·.isJoint) && !(Forest.splice rest).isEmpty

mutual

/-- Whether all trees inside a tree fit. -/
def Tree.seamless : Tree → Bool
  | .token _ => true
  | .group _ inner _ => Forest.seamless inner

/-- Whether all trees of a level, at any depth, fit. -/
def Forest.seamless : Forest → Bool
  | [] => true
  | tree :: rest => tree.seamless && (tree.fits rest && Forest.seamless rest)

end

/-! ### What a qualifier puts in place of invisible groups -/

namespace Qualifier

/-- With nothing in scope a qualifier only splices. -/
theorem level_eq_splice {state : State} (hheld : state.held = []) : (trees : Forest) →
    level ⟨⟨[], []⟩, none⟩ state trees = trees.splice
  | [] => by rw [level, hheld, Forest.splice]
  | .token token :: rest => by
    have hout : (plain ⟨[], []⟩ state token).out = [.token token] := by
      cases token <;> cases state <;> rfl
    have hnext := held_plain ⟨[], []⟩ token hheld
    rw [level, step_of_root_eq_none rfl, hout, level_eq_splice hnext rest]
    rfl
  | .group delimiter inner span :: rest => by
    rw [level, hheld, group, level_eq_splice rfl inner, level_eq_splice rfl rest]
    rfl
termination_by trees => sizeOf trees

theorem qualify_eq_splice (trees : Forest) :
    qualify ⟨⟨[], []⟩, none⟩ trees = trees.splice := by
  rw [qualify_eq_level]
  exact level_eq_splice rfl trees

end Qualifier

/-! ### Seams -/

namespace Tree

theorem splice_of_isJoint {tree : Tree} (h : tree.isJoint = true) : tree.splice = [tree] := by
  cases tree with
  | token value => rfl
  | group delimiter inner span => cases h

/-- Where no space is written between a tree and what stands behind it, none is written
once invisible groups have given way. -/
theorem joins_splice {tree : Tree} {rest : Forest} (h : Forest.joins [tree] rest = true) :
    Forest.joins tree.splice rest.splice = true := by
  cases rest with
  | nil => simp [Forest.joins, Forest.splice]
  | cons next rest =>
    have hjoint : tree.isJoint = true := by simpa [Forest.joins] using h
    rw [splice_of_isJoint hjoint]
    simp [Forest.joins, hjoint]

theorem sublist_gap_splice (tree : Tree) (rest : Forest) :
    (gap (Forest.joins tree.splice rest.splice)).Sublist (gap (Forest.joins [tree] rest)) := by
  cases hjoins : Forest.joins [tree] rest with
  | true =>
    simp only [joins_splice hjoins, List.Sublist.refl]
  | false => cases Forest.joins tree.splice rest.splice <;> decide

/-- A tree fits exactly where a space is written behind it either way or neither way. -/
theorem fits_iff {tree : Tree} {rest : Forest} :
    tree.fits rest = true ↔
      Forest.joins [tree] rest = Forest.joins tree.splice rest.splice := by
  cases hjoins : Forest.joins [tree] rest with
  | true =>
    have hfits : rest.isEmpty = true ∨ tree.isJoint = true := by
      simpa [Forest.joins, or_comm] using hjoins
    simp only [joins_splice hjoins, fits, iff_true]
    rcases hfits with hempty | hjoint
    · simp [hempty]
    · simp [hjoint]
  | false =>
    obtain ⟨hjoint, hempty⟩ : tree.isJoint = false ∧ rest.isEmpty = false := by
      simpa [Forest.joins] using hjoins
    rw [fits, hjoint, hempty, Forest.joins, Eq.comm]
    cases tree.splice.getLast? <;> simp

end Tree

namespace Forest

theorem toList_text_regroup (delimiter : Delimiter) (inner : Forest) (span : Span) :
    (Forest.text (Qualifier.regroup delimiter inner span)).toList =
      delimiter.opener.toList ++ ((Forest.text inner).toList ++ delimiter.closer.toList) := by
  by_cases h : delimiter = .invisible
  · subst h
    simp [Qualifier.regroup, Delimiter.opener, Delimiter.closer]
  · rw [Qualifier.regroup, if_neg h, toList_text_cons]
    simp [Tree.text, Forest.text, joins, gap]

theorem toList_text_splice_cons (tree : Tree) (rest : Forest) :
    (Forest.text (Forest.splice (tree :: rest))).toList =
      (Forest.text tree.splice).toList ++
        (gap (joins tree.splice rest.splice) ++ (Forest.text rest.splice).toList) := by
  rw [Forest.splice, toList_text_append]

theorem toList_text_token (value : Token) :
    (Forest.text (Tree.token value).splice).toList = (Tree.token value).text.toList := by
  rw [Tree.splice, toList_text_cons]
  simp [Forest.text, joins, gap]

end Forest

/-! ### Splicing takes out spaces only -/

mutual

theorem Tree.sublist_text_splice : (tree : Tree) →
    (Forest.text tree.splice).toList.Sublist tree.text.toList
  | .token value => by
    simp only [Forest.toList_text_token, List.Sublist.refl]
  | .group delimiter inner span => by
    have hinner := Forest.sublist_text_splice inner
    rw [Tree.splice, Forest.toList_text_regroup, Tree.text, String.toList_append,
      String.toList_append, List.append_assoc]
    exact (List.Sublist.refl _).append (hinner.append (List.Sublist.refl _))

theorem Forest.sublist_text_splice : (trees : Forest) →
    (Forest.text trees.splice).toList.Sublist (Forest.text trees).toList
  | [] => List.Sublist.refl _
  | tree :: rest => by
    have htree := Tree.sublist_text_splice tree
    have hrest := Forest.sublist_text_splice rest
    have hgap := Tree.sublist_gap_splice tree rest
    rw [Forest.toList_text_splice_cons, Forest.toList_text_cons]
    exact htree.append (hgap.append hrest)

end

mutual

theorem Tree.filter_text_splice : (tree : Tree) →
    (Forest.text tree.splice).toList.filter (· ≠ ' ') = tree.text.toList.filter (· ≠ ' ')
  | .token value => by rw [Forest.toList_text_token]
  | .group delimiter inner span => by
    have hinner := Forest.filter_text_splice inner
    rw [Tree.splice, Forest.toList_text_regroup, Tree.text, String.toList_append,
      String.toList_append, List.append_assoc]
    simp only [List.filter_append, hinner]

theorem Forest.filter_text_splice : (trees : Forest) →
    (Forest.text trees.splice).toList.filter (· ≠ ' ') =
      (Forest.text trees).toList.filter (· ≠ ' ')
  | [] => rfl
  | tree :: rest => by
    have htree := Tree.filter_text_splice tree
    have hrest := Forest.filter_text_splice rest
    have hgap (glued : Bool) : (gap glued).filter (· ≠ ' ') = [] := by cases glued <;> rfl
    rw [Forest.toList_text_splice_cons, Forest.toList_text_cons]
    simp only [List.filter_append, htree, hrest, hgap]

end

/-! ### Where splicing takes out nothing -/

/-- Two texts made of two parts each, those of the second left over from those of the
first, are equal only part by part. -/
theorem append_eq_append_iff_of_sublist {front back kept left : List Char}
    (hfront : kept.Sublist front) (hback : left.Sublist back) :
    front ++ back = kept ++ left ↔ front = kept ∧ back = left := by
  refine ⟨fun h => ?_, fun ⟨hf, hb⟩ => by rw [hf, hb]⟩
  have hlength : front.length = kept.length := by
    have htotal := congrArg List.length h
    have hf := hfront.length_le
    have hb := hback.length_le
    simp only [List.length_append] at htotal
    omega
  exact List.append_inj h hlength

theorem Event.gap_inj {glued other : Bool} : gap glued = gap other ↔ glued = other := by
  cases glued <;> cases other <;> decide

mutual

theorem Tree.text_eq_text_splice_iff : (tree : Tree) →
    (tree.text.toList = (Forest.text tree.splice).toList ↔ tree.seamless = true)
  | .token value => by simp [Forest.toList_text_token, Tree.seamless]
  | .group delimiter inner span => by
    have hinner := Forest.text_eq_text_splice_iff inner
    rw [Tree.splice, Forest.toList_text_regroup, Tree.text, String.toList_append,
      String.toList_append, List.append_assoc, List.append_cancel_left_eq,
      List.append_cancel_right_eq, hinner, Tree.seamless]

theorem Forest.text_eq_text_splice_iff : (trees : Forest) →
    ((Forest.text trees).toList = (Forest.text trees.splice).toList ↔ trees.seamless = true)
  | [] => by simp [Forest.splice, Forest.seamless]
  | tree :: rest => by
    have htree := Tree.text_eq_text_splice_iff tree
    have hrest := Forest.text_eq_text_splice_iff rest
    have hgap := Tree.sublist_gap_splice tree rest
    have hbehind := Forest.sublist_text_splice rest
    rw [Forest.toList_text_splice_cons, Forest.toList_text_cons,
      append_eq_append_iff_of_sublist (Tree.sublist_text_splice tree) (hgap.append hbehind),
      append_eq_append_iff_of_sublist hgap hbehind, htree, hrest, Event.gap_inj, ← Tree.fits_iff,
      Forest.seamless, Bool.and_eq_true, Bool.and_eq_true]

end

/-- Invisible groups in a text. Putting their contents in their place, as a qualifier does,
takes out spaces and nothing else; and it takes out none, so that the text is the same,
exactly where all trees fit: no invisible group that shows nothing or ends in a joint mark
has anything behind it, and behind a tree that is no joint mark nothing stands or something
shows. -/
theorem Forest.render_eq_render_splice_iff (trees : Forest) :
    Qualifier.qualify ⟨⟨[], []⟩, none⟩ trees = trees.splice ∧
      trees.splice.render.toList.filter (· ≠ ' ') = trees.render.toList.filter (· ≠ ' ') ∧
      (trees.render = trees.splice.render ↔ trees.seamless = true) := by
  rw [Forest.render_eq_text, Forest.render_eq_text, ← String.toList_inj]
  exact ⟨Qualifier.qualify_eq_splice trees, Forest.filter_text_splice trees,
    Forest.text_eq_text_splice_iff trees⟩

/-- An invisible group with nothing in it writes a space of its own, and one that ends in a
joint mark lets go of what follows; one that does neither is not seen. -/
theorem Forest.render_eq_render_splice_iff_hidden :
    let name (text : String) : Tree := .ident { text }
    let colon (spacing : Spacing) : Tree := .punct { text := ":", spacing }
    let hidden (inner : Forest) : Tree := .group .invisible inner {}
    let empty : Forest := [name "a", hidden [], name "b"]
    let joint : Forest := [hidden [colon .joint], colon .alone]
    let unseen : Forest := [colon .joint, hidden [name "a", hidden [name "b"]], name "c"]
    (empty.render = "a  b" ∧ empty.splice.render = "a b" ∧ empty.render ≠ empty.splice.render) ∧
      (joint.render = ": :" ∧ joint.splice.render = "::" ∧
        joint.render ≠ joint.splice.render) ∧
      unseen.render = ":a b c" ∧ unseen.render = unseen.splice.render := by
  intro name colon hidden empty joint unseen
  have hdiffer {trees : Forest} (h : trees.seamless = false) :
      trees.render ≠ trees.splice.render := by
    intro hsame
    have hseamless := (Forest.render_eq_render_splice_iff trees).2.2.mp hsame
    rw [h] at hseamless
    cases hseamless
  have hsame := (Forest.render_eq_render_splice_iff unseen).2.2.mpr (by decide +kernel)
  exact ⟨⟨by decide +kernel, by decide +kernel, hdiffer (by decide +kernel)⟩,
    ⟨by decide +kernel, by decide +kernel, hdiffer (by decide +kernel)⟩,
    by decide +kernel, hsame⟩

end Qualify
