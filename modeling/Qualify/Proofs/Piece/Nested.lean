import Mathlib.Data.List.Induction
import Qualify.Piece

/-!
# Well-nested delimiters

What it means for the delimiters among pieces to match, said without a stack: `Nested`
builds well-nested pieces from groups that are closed by their own delimiter. Pieces that
can go on to become well nested are well nested between their open openers (`Opened`), and
where they cannot, there is a first closing delimiter that does not fit
(`exists_opened_or_misfit`). `unclosed?` is a pass with a stack that skips what does not
fit; on pieces that can go on it finds the innermost open opener (`Opened.unclosed?_eq`).

## Main definitions

- `Piece.Nested` — the delimiters of pieces match
- `Piece.Innermost` — the delimiter of the innermost group that is open behind pieces
- `Piece.Opened` — pieces with the openers that are open behind them
- `Piece.unclosed?` — the opener that a pass of its own finds open at the end
-/

namespace Qualify

/-- Whether a terminal opens or closes a group. -/
def Terminal.isDelimiter : Terminal → Bool
  | opener _ | closer _ => true
  | _ => false

namespace Piece

/-- The delimiter of a group that a piece opens. -/
def opens? (piece : Piece) : Option Delimiter :=
  match piece.terminal with
  | .opener delimiter => some delimiter
  | _ => none

/-- The delimiters of pieces are well nested. -/
inductive Nested : List Piece → Prop
  | nil : Nested []
  | other {piece : Piece} {rest : List Piece} (isOther : piece.terminal.isDelimiter = false)
      (nested : Nested rest) : Nested (piece :: rest)
  | group {opener closer : Piece} {delimiter : Delimiter} {inner rest : List Piece}
      (isOpener : opener.terminal = .opener delimiter)
      (isCloser : closer.terminal = .closer delimiter) (inside : Nested inner)
      (nested : Nested rest) : Nested (opener :: (inner ++ closer :: rest))

/-- The delimiter of the innermost group that is open behind pieces: the last opener
without a closer, if there is one. -/
inductive Innermost : List Piece → Option Delimiter → Prop
  | outside {pieces : List Piece} (nested : Nested pieces) : Innermost pieces none
  | inside {before after : List Piece} {opener : Piece} {delimiter : Delimiter}
      (isOpener : opener.terminal = .opener delimiter) (nested : Nested after) :
      Innermost (before ++ opener :: after) (some delimiter)

/-- The opener that is open at the end of pieces, the innermost one of several. A closer
takes the innermost opener off the stack if it fits, and is passed over if not. -/
def unclosed? (stack : List Piece) : List Piece → Option Piece
  | [] => stack.head?
  | piece :: rest =>
    match piece.terminal with
    | .opener _ => unclosed? (piece :: stack) rest
    | .closer delimiter =>
      if stack.head?.bind opens? = some delimiter then unclosed? stack.tail rest
      else unclosed? stack rest
    | _ => unclosed? stack rest

/-- Pieces with the openers that are open behind them, innermost first, and well nested in
between. -/
inductive Opened : List Piece → List Piece → Prop
  | closed {pieces : List Piece} (nested : Nested pieces) : Opened [] pieces
  | opened {stack before after : List Piece} {opener : Piece} {delimiter : Delimiter}
      (opened : Opened stack before) (isOpener : opener.terminal = .opener delimiter)
      (nested : Nested after) : Opened (opener :: stack) (before ++ opener :: after)

theorem opens?_of_opener {piece : Piece} {delimiter : Delimiter}
    (h : piece.terminal = .opener delimiter) : piece.opens? = some delimiter := by
  rw [opens?, h]

/-! ### Putting pieces together -/

theorem Nested.append {front back : List Piece} (hfront : Nested front) (hback : Nested back) :
    Nested (front ++ back) := by
  induction hfront with
  | nil => exact hback
  | other isOther _ ih => exact .other isOther ih
  | group isOpener isCloser inside _ _ ih =>
    rw [List.cons_append, List.append_assoc, List.cons_append]
    exact .group isOpener isCloser inside ih

theorem Opened.append {stack pieces more : List Piece} (h : Opened stack pieces)
    (hmore : Nested more) : Opened stack (pieces ++ more) := by
  cases h with
  | closed nested => exact .closed (nested.append hmore)
  | opened opened isOpener nested =>
    rw [List.append_assoc, List.cons_append]
    exact .opened opened isOpener (nested.append hmore)

/-- A closer that fits closes the innermost open group. -/
theorem Opened.close {stack pieces : List Piece} {opener closer : Piece} {delimiter : Delimiter}
    (h : Opened (opener :: stack) pieces) (hopener : opener.terminal = .opener delimiter)
    (hcloser : closer.terminal = .closer delimiter) : Opened stack (pieces ++ [closer]) := by
  cases h with
  | @opened _ before after _ _ opened _ nested =>
    have hgroup : Nested (opener :: (after ++ closer :: [])) :=
      .group hopener hcloser nested .nil
    rw [List.append_assoc, List.cons_append]
    exact opened.append hgroup

/-- All that is open can be closed. -/
theorem Opened.exists_nested {stack pieces : List Piece} (h : Opened stack pieces) :
    ∃ more, Nested (pieces ++ more) := by
  induction stack generalizing pieces with
  | nil =>
    cases h with
    | closed nested => exact ⟨[], by rwa [List.append_nil]⟩
  | cons opener stack ih =>
    obtain ⟨delimiter, hopener⟩ : ∃ delimiter, opener.terminal = .opener delimiter := by
      cases h with
      | opened _ isOpener _ => exact ⟨_, isOpener⟩
    let closer : Piece := ⟨.closer delimiter, [], {}, {}⟩
    have hclosed : Opened stack (pieces ++ [closer]) := h.close hopener rfl
    obtain ⟨more, hmore⟩ := ih hclosed
    rw [List.append_assoc] at hmore
    exact ⟨[closer] ++ more, hmore⟩

theorem Opened.innermost {stack pieces : List Piece} (h : Opened stack pieces) :
    Innermost pieces (stack.head?.bind opens?) := by
  cases h with
  | closed nested => exact .outside nested
  | opened _ isOpener nested =>
    rw [List.head?_cons, Option.bind_some, opens?_of_opener isOpener]
    exact .inside isOpener nested

/-! ### The first delimiter that does not fit -/

/-- Pieces can go on to become well nested, or there is a first closing delimiter that does
not fit the innermost open group. -/
theorem exists_opened_or_misfit (pieces : List Piece) :
    (∃ stack, Opened stack pieces) ∨
      ∃ before closer after delimiter stack, pieces = before ++ closer :: after ∧
        closer.terminal = .closer delimiter ∧ Opened stack before ∧
          stack.head?.bind opens? ≠ some delimiter := by
  induction pieces using List.reverseRecOn with
  | nil => exact .inl ⟨[], .closed .nil⟩
  | append_singleton pieces piece ih =>
    rcases ih with ⟨stack, hopened⟩ | ⟨before, closer, after, delimiter, stack, rfl, hmisfit⟩
    · cases hterminal : piece.terminal with
      | opener delimiter => exact .inl ⟨piece :: stack, .opened hopened hterminal .nil⟩
      | closer delimiter =>
        by_cases hfits : stack.head?.bind opens? = some delimiter
        · -- The closer fits, so some opener is open.
          cases stack with
          | nil => cases hfits
          | cons opener stack =>
            have hopener : opener.terminal = .opener delimiter := by
              cases hopened with
              | opened _ isOpener _ =>
                rw [List.head?_cons, Option.bind_some, opens?_of_opener isOpener] at hfits
                rw [isOpener, Option.some.inj hfits]
            exact .inl ⟨stack, hopened.close hopener hterminal⟩
        · exact .inr ⟨pieces, piece, [], delimiter, stack, rfl, hterminal, hopened, hfits⟩
      | _ =>
        have hother : piece.terminal.isDelimiter = false := by rw [hterminal]; rfl
        exact .inl ⟨stack, hopened.append (.other hother .nil)⟩
    · refine .inr ⟨before, closer, after ++ [piece], delimiter, stack, ?_, hmisfit⟩
      rw [List.append_assoc, List.cons_append]

/-! ### The pass that skips what does not fit -/

/-- Well-nested pieces leave the stack as it was. -/
theorem Nested.unclosed?_append {pieces : List Piece} (h : Nested pieces)
    (stack rest : List Piece) : unclosed? stack (pieces ++ rest) = unclosed? stack rest := by
  induction h generalizing stack rest with
  | nil => rfl
  | @other piece _ isOther _ ih =>
    rw [List.cons_append, unclosed?]
    cases hterminal : piece.terminal with
    | opener | closer =>
      rw [hterminal] at isOther
      cases isOther
    | _ => exact ih stack rest
  | @group opener closer delimiter inner _ isOpener isCloser _ _ ihinner ih =>
    rw [List.cons_append, unclosed?, isOpener]
    simp only [List.append_assoc, List.cons_append]
    rw [ihinner, unclosed?, isCloser]
    simp only [List.head?_cons, Option.bind_some, opens?_of_opener isOpener, if_true,
      List.tail_cons]
    exact ih stack rest

/-- On pieces that can go on to become well nested, the pass keeps just the openers that
are open. -/
theorem Opened.unclosed?_append {stack pieces : List Piece} (h : Opened stack pieces)
    (rest : List Piece) : unclosed? [] (pieces ++ rest) = unclosed? stack rest := by
  induction h generalizing rest with
  | closed nested => exact nested.unclosed?_append [] rest
  | opened _ isOpener nested ih =>
    rw [List.append_assoc, List.cons_append, ih, unclosed?, isOpener]
    exact nested.unclosed?_append _ rest

theorem Opened.unclosed?_eq {stack pieces : List Piece} (h : Opened stack pieces) :
    unclosed? [] pieces = stack.head? := by
  rw [← List.append_nil pieces, h.unclosed?_append]
  rfl

end Piece

end Qualify
