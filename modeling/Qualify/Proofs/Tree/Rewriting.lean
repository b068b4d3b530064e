import Qualify.Proofs.Tree.Readable

/-!
# Rewriting that keeps events readable

Expanding a body changes its events in few ways: an identifier that names no lifetime
gives way to other events, what stands behind an arrow is taken out, and a delimiter
is put behind the last event. `Rewritten` relates the events before and after. It
keeps them readable (`Rewritten.readable`): the only property that reaches beyond the
next event is that an unclosed comment stays unclosed, and what is rewritten closes no
comment that was not closed before (`Rewritten.closes`).

## Main definitions

- `Event.Word` — events that can stand where an identifier stands
- `Event.Rewritten` — events before and after
-/

namespace Qualify

namespace Event

theorem Closes.of_append {front back : List Event} (h : Closes back) : Closes (front ++ back) := by
  induction front with
  | nil => exact h
  | cons event rest ih => exact .later ih

/-- Events that can stand where an identifier stands: with readable events behind them
they are readable, and they close no comment. -/
structure Word (word : List Event) : Prop where
  readable {rest : List Event} (h : Readable rest) : Readable (word ++ rest)
  closes {rest : List Event} (h : Closes (word ++ rest)) : Closes rest

/-- Whether an event is the tick of a lifetime. -/
def isTick : Event → Bool
  | .token (.punct mark) => mark.text = "'" && mark.spacing = .joint
  | _ => false

/-- Events before and after rewriting. The flag tells whether a tick stands in front,
so that an identifier there is the name of a lifetime and has to stay. -/
inductive Rewritten : Bool → List Event → List Event → Prop
  | nil (ticked : Bool) : Rewritten ticked [] []
  | close (ticked : Bool) {delimiter : Delimiter} (visible : delimiter ≠ .invisible) :
      Rewritten ticked [] [.closing delimiter]
  | keep {ticked : Bool} (event : Event) {old new : List Event}
      (rest : Rewritten event.isTick old new) : Rewritten ticked (event :: old) (event :: new)
  | replace (ident : Ident) {word old new : List Event} (isWord : Word word)
      (rest : Rewritten false old new) :
      Rewritten false (.token (.ident ident) :: old) (word ++ new)
  | arrow {ticked : Bool} (equals greater : Punct) (removed : List Event) {old new : List Event}
      (rest : Rewritten false old new) :
      Rewritten ticked (.token (.punct equals) :: .token (.punct greater) :: (removed ++ old))
        (.token (.punct { text := "=", spacing := .joint }) ::
          .token (.punct { text := ">" }) :: new)

/-- Events may be kept in front of any rewriting. -/
theorem Rewritten.append {old new : List Event} (h : ∀ ticked, Rewritten ticked old new)
    (front : List Event) (ticked : Bool) : Rewritten ticked (front ++ old) (front ++ new) := by
  induction front generalizing ticked with
  | nil => exact h ticked
  | cons event rest ih => exact .keep event (ih event.isTick)

/-- Rewriting closes no comment that was not closed before. -/
theorem Rewritten.closes {ticked : Bool} {old new : List Event} (h : Rewritten ticked old new)
    (hr : Readable old) (hcloses : Closes new) : Closes old := by
  induction h with
  | nil => exact hcloses
  | close _ visible =>
    cases hcloses with
    | later closes => exact closes
  | keep event rest ih =>
    cases hcloses with
    | literal text => exact .literal text
    | later closes => exact .later (ih hr.tail closes)
    | marks star_text joint slash_text =>
      -- The star was joint to a mark before, and that mark was kept.
      cases hr with
      | lifetime text _ _ _ => exact absurd (text.symm.trans star_text) (by decide)
      | alone _ _ alone _ => exact absurd (alone.symm.trans joint) (by decide)
      | joint _ _ _ _ _ =>
        generalize isTick _ = ticked at rest
        cases rest with
        | keep => exact .marks star_text joint slash_text
        | arrow => exact absurd slash_text (by decide)
  | replace ident isWord rest ih => exact .later (ih hr.tail (isWord.closes hcloses))
  | arrow equals greater removed rest ih =>
    have hnew := (hcloses.of_punct (by decide)).of_punct (by decide)
    exact .later (.later (.of_append (ih hr.tail.tail.of_append hnew)))

/-- Rewriting keeps events readable. -/
theorem Rewritten.readable {ticked : Bool} {old new : List Event} (h : Rewritten ticked old new)
    (hr : Readable old) : Readable new := by
  induction h with
  | nil => exact hr
  | close _ visible => exact .closing visible .nil
  | keep event rest ih =>
    have hnew := ih hr.tail
    cases hr with
    | opening visible _ => exact .opening visible hnew
    | closing visible _ => exact .closing visible hnew
    | ident isIdent _ => exact .ident isIdent hnew
    | literal isLiteral lexeme _ => exact .literal isLiteral lexeme hnew
    | alone isMark text alone _ => exact .alone isMark text alone hnew
    | @lifetime tick _ _ text joint isName _ =>
      have htick : isTick (.token (.punct tick)) = true := by simp [isTick, text, joint]
      rw [htick] at rest
      cases rest with
      | keep => exact .lifetime text joint isName hnew.tail
    | joint isMark text joint comment readable =>
      generalize isTick _ = ticked at rest
      cases rest with
      | keep event rest =>
        refine .joint isMark text joint (fun hslash hopens => comment hslash ?_) hnew
        rcases hopens with hnext | ⟨hstar, hclosed⟩
        · exact .inl hnext
        · exact .inr ⟨hstar, rest.closes readable.tail hclosed⟩
      | arrow =>
        refine .joint isMark text joint (fun _ hopens => ?_) hnew
        rcases hopens with hnext | ⟨hstar, -⟩
        · exact absurd hnext (by decide)
        · exact absurd hstar (by decide)
  | replace ident isWord rest ih => exact isWord.readable (ih hr.tail)
  | @arrow _ equals greater removed _ new rest ih =>
    have hnew := ih hr.tail.tail.of_append
    have hgreater : Readable (.token (.punct { text := ">" }) :: new) :=
      .alone (c := '>') (by decide) rfl rfl hnew
    exact .joint (c := '=') (by decide) rfl rfl (fun h => absurd h (by decide)) hgreater

end Event

end Qualify
