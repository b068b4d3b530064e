import Qualify.Proofs.Tree.Nesting
import Qualify.Quote

/-!
# Flavors wrap what bodies expand to

A flavor takes the span expression off its body, expands the rest and puts the call of
its macro around both (`Flavor.expand_eq_bind`). Where the span expression ends is said
by the places at which an arrow stands on the level, and by nothing behind the first of
them: `splitArrow?` cuts there (`splitArrow?_eq_some`). So a flavor comes to what
`expand` comes to, trees or error, with the span expression handed on as it is.

## Main definitions

- `Forest.arrowAt` — whether `=>` stands at an index of a level
- `expandBody` — expansion of a body with the prelude, or without it
-/

namespace Qualify

/-! ### Arrows on a level -/

namespace Forest

/-- Whether `=>` stands at an index of a level: a joint `=`, directly followed by `>`. -/
def arrowAt (trees : Forest) (index : Nat) : Bool :=
  trees[index]?.any (·.isPunctSpaced "=" .joint) && trees[index + 1]?.any (·.isPunct ">")

theorem arrowAt_cons_zero (tree : Tree) (rest : Forest) :
    arrowAt (tree :: rest) 0 = startsWith ['=', '>'] (tree :: rest) := by
  cases rest with
  | nil => simp [arrowAt, startsWith]
  | cons second after => rfl

end Forest

/-- A level is cut at its first arrow, whatever stands behind it. -/
theorem splitArrow?_eq_some {trees : Forest} {index : Nat} (h : trees.arrowAt index = true)
    (hfirst : ∀ earlier < index, trees.arrowAt earlier = false) :
    splitArrow? trees = some (trees.take index, trees.drop (index + 2)) := by
  induction trees generalizing index with
  | nil => cases h
  | cons tree rest ih =>
    rw [splitArrow?, ← Forest.arrowAt_cons_zero]
    cases index with
    | zero =>
      rw [if_pos h, List.take_zero, List.drop_succ_cons]
    | succ index =>
      have hnot := hfirst 0 (Nat.succ_pos index)
      have hrest := ih h fun earlier hearlier => hfirst (earlier + 1) (Nat.succ_lt_succ hearlier)
      rw [hnot, if_neg Bool.false_ne_true, hrest]
      rfl

/-- A level without arrows is not cut. -/
theorem splitArrow?_eq_none {trees : Forest} (h : ∀ index, trees.arrowAt index = false) :
    splitArrow? trees = none := by
  induction trees with
  | nil => rfl
  | cons tree rest ih =>
    have hrest := ih fun index => h (index + 1)
    rw [splitArrow?, ← Forest.arrowAt_cons_zero, h 0, if_neg Bool.false_ne_true, hrest]
    rfl

/-! ### Flavors -/

/-- Expand a body without a span expression, with the prelude or without it. -/
def expandBody (config : Config) (noPrelude : Bool) (body : Forest) :
    Except SyntaxError Forest :=
  (Quote.read config.style body).map fun quote =>
    (if noPrelude then quote.withoutPrelude else quote).expand config

theorem expandBody_false (config : Config) (body : Forest) :
    expandBody config false body = expand config body := rfl

namespace Flavor

/-- A flavor splits its trees, expands the body and wraps what comes out. -/
theorem expand_eq_bind (flavor : Flavor) (config : Config) (noPrelude : Bool) (trees : Forest) :
    flavor.expand config noPrelude trees =
      (flavor.split trees).bind fun (expression, body) =>
        (expandBody config noPrelude body).map (flavor.wrap expression) := by
  rw [expand, prepare]
  cases flavor.split trees with
  | error error => rfl
  | ok value =>
    obtain ⟨expression, body⟩ := value
    simp only [Except.bind, expandBody]
    cases Quote.read config.style body <;> rfl

theorem split_of_not_spanned {flavor : Flavor} (h : flavor.isSpanned = false) (trees : Forest) :
    flavor.split trees = .ok ([], trees) := by
  rw [split, h, if_neg Bool.false_ne_true]

theorem split_of_arrowAt {flavor : Flavor} (h : flavor.isSpanned = true)
    {expression body : Forest} {equals greater : Tree} (hpos : 0 < expression.length)
    (harrow : (expression ++ equals :: greater :: body).arrowAt expression.length = true)
    (hfirst : ∀ index < expression.length,
      (expression ++ equals :: greater :: body).arrowAt index = false) :
    flavor.split (expression ++ equals :: greater :: body) = .ok (expression, body) := by
  have hsplit := splitArrow?_eq_some harrow hfirst
  rw [List.take_left, ← List.drop_drop, List.drop_left] at hsplit
  rw [split, if_pos h, splitSpan, hsplit]
  cases expression with
  | nil => cases hpos
  | cons first others => rfl

theorem split_of_arrowAt_zero {flavor : Flavor} (h : flavor.isSpanned = true) {trees : Forest}
    (harrow : trees.arrowAt 0 = true) :
    flavor.split trees = .error ⟨.missingSpanExpression, Declaration.spanAt {} trees⟩ := by
  have hsplit := splitArrow?_eq_some harrow fun earlier hearlier =>
    absurd hearlier (Nat.not_lt_zero earlier)
  rw [split, if_pos h, splitSpan, hsplit]
  rfl

theorem split_of_no_arrow {flavor : Flavor} (h : flavor.isSpanned = true) {trees : Forest}
    (hnone : ∀ index, trees.arrowAt index = false) :
    flavor.split trees = .error ⟨.missingSpanArrow, {}⟩ := by
  rw [split, if_pos h, splitSpan, splitArrow?_eq_none hnone]
  rfl

theorem wrap_of_not_spanned {flavor : Flavor} (h : flavor.isSpanned = false) (tail : Forest) :
    flavor.wrap [] tail =
      flavor.path.trees ++ [.punct { text := "!" }, .group .brace tail {}] := by
  rw [wrap, h]
  rfl

theorem wrap_of_spanned {flavor : Flavor} (h : flavor.isSpanned = true)
    (expression tail : Forest) :
    flavor.wrap expression tail =
      flavor.path.trees ++ [.punct { text := "!" },
        .group .brace (expression ++ (Forest.operator ['=', '>'] ++ tail)) {}] := by
  rw [wrap, h]
  rfl

/-- A flavor is expansion and wrapping. Without a span expression the call holds what the
body expands to, and nothing else; a spanned body is cut at its first arrow, in front of
which something has to stand, and the call holds the span expression as it is, an arrow
and what the rest expands to. Errors are those of the expansion. -/
theorem expand_eq_wrapped (flavor : Flavor) (config : Config) (trees : Forest) :
    (flavor.isSpanned = false →
      flavor.expand config false trees = (Qualify.expand config trees).map fun tail =>
        flavor.path.trees ++ [.punct { text := "!" }, .group .brace tail {}]) ∧
    (flavor.isSpanned = true →
      (∀ expression equals greater body, trees = expression ++ equals :: greater :: body →
        0 < expression.length → trees.arrowAt expression.length = true →
        (∀ index < expression.length, trees.arrowAt index = false) →
        flavor.expand config false trees = (Qualify.expand config body).map fun tail =>
          flavor.path.trees ++ [.punct { text := "!" },
            .group .brace (expression ++ (Forest.operator ['=', '>'] ++ tail)) {}]) ∧
      ((∀ index, trees.arrowAt index = false) →
        flavor.expand config false trees = .error ⟨.missingSpanArrow, {}⟩) ∧
      (trees.arrowAt 0 = true →
        flavor.expand config false trees =
          .error ⟨.missingSpanExpression, Declaration.spanAt {} trees⟩)) := by
  rw [expand_eq_bind]
  refine ⟨fun hplain => ?_, fun hspanned => ⟨?_, fun hnone => ?_, fun hzero => ?_⟩⟩
  · simp only [split_of_not_spanned hplain, Except.bind, expandBody_false]
    exact congrArg (Except.map · _) (funext (wrap_of_not_spanned hplain))
  · rintro expression equals greater body rfl hpos harrow hfirst
    simp only [split_of_arrowAt hspanned hpos harrow hfirst, Except.bind, expandBody_false]
    exact congrArg (Except.map · _) (funext (wrap_of_spanned hspanned expression))
  · rw [split_of_no_arrow hspanned hnone]
    rfl
  · rw [split_of_arrowAt_zero hspanned hzero]
    rfl

/-- Behind the first arrow a second one is part of the body, and one inside a group of the
span expression is not on its level. -/
theorem expand_eq_wrapped_arrows :
    let config : Config := { prelude := .disabled }
    let mark (text : String) (spacing : Spacing) : Tree := .punct { text, spacing }
    let name (text : String) : Tree := .ident { text }
    let arrow : Forest := [mark "=" .joint, mark ">" .alone]
    let expression : Forest := [.group .paren arrow {}]
    let body : Forest := [mark "#" .alone, name "use", name "b", name "as", name "x",
      mark ";" .alone, name "x"] ++ arrow ++ [name "y"]
    let tail : Forest := [mark ":" .joint, mark ":" .alone, name "b"] ++ arrow ++ [name "y"]
    let trees := expression ++ (arrow ++ body)
    quote.expand config false body =
        .ok (quote.path.trees ++ [mark "!" .alone, .group .brace tail {}]) ∧
      (trees.arrowAt 0 = false ∧ trees.arrowAt 1 = true ∧ trees.arrowAt 10 = true ∧
        quoteSpanned.expand config false trees =
          .ok (quoteSpanned.path.trees ++
            [mark "!" .alone, .group .brace (expression ++ (arrow ++ tail)) {}])) ∧
      quoteSpanned.expand config false expression = .error ⟨.missingSpanArrow, {}⟩ ∧
      quoteSpanned.expand config false (arrow ++ body) = .error ⟨.missingSpanExpression, {}⟩ := by
  intro config mark name arrow expression body tail trees
  have hbody : Qualify.expand config body = .ok tail :=
    eq_ok_of_toOption (by decide +kernel)
  refine ⟨?_, ⟨rfl, rfl, rfl, ?_⟩, ?_, ?_⟩
  · rw [(expand_eq_wrapped quote config body).1 rfl, hbody]
    rfl
  · have hwrapped := ((expand_eq_wrapped quoteSpanned config trees).2 rfl).1 expression _ _ body rfl
      (by decide) rfl (by decide)
    rw [hwrapped, hbody]
    rfl
  · refine ((expand_eq_wrapped quoteSpanned config expression).2 rfl).2.1 fun index => ?_
    cases index <;> rfl
  · exact ((expand_eq_wrapped quoteSpanned config (arrow ++ body)).2 rfl).2.2 rfl

end Flavor

end Qualify
