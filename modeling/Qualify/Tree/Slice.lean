import Qualify.Fault

/-!
# Parts of a level

Trees are counted from zero; a negative index counts from the end, and an index
is a signed machine word. A slice takes
every `step`-th tree from one bound up to and excluding the other, backwards
when the step is negative. Bounds outside the level are moved to its ends.
-/

namespace Qualify.Forest

/-- Whether an index is a signed word of 64 bits. -/
def isIndex (index : Int) : Bool :=
  -0x8000000000000000 ≤ index && index < 0x8000000000000000

/-- The tree at an index. -/
def get (trees : Forest) (index : Int) : Except Fault Tree :=
  let position := if index < 0 then index + trees.length else index
  if !isIndex index then .error .oversizedIndex
  else if position < 0 then .error .outOfRange
  else
    match trees[position.toNat]? with
    | some tree => .ok tree
    | none => .error .outOfRange

/-- A bound of a slice, moved into the range from `low` to `high`. -/
def clamp (length low high bound : Int) : Int :=
  let position := if bound < 0 then bound + length else bound
  max low (min high position)

/-- The positions of a slice: `count` of them, `step` apart. -/
def positions (start step : Int) (count : Nat) : List Int :=
  (List.range count).map fun (i : Nat) => start + step * i

/-- How many steps lead from `start` to before `stop`. -/
def stepCount (start stop step : Int) : Nat :=
  if 0 < step then ((stop - start + step - 1).fdiv step).toNat
  else ((start - stop - step - 1).fdiv (-step)).toNat

/-- Every `step`-th tree between two bounds. A missing bound stands for the end of
the level that the slice starts or stops at. -/
def slice (trees : Forest) (start stop step : Option Int) : Except Fault Forest :=
  let step := step.getD 1
  let length : Int := trees.length
  if step = 0 then .error .zeroStep
  else
    let low := if 0 < step then 0 else -1
    let high := if 0 < step then length else length - 1
    let first := (start.map (clamp length low high)).getD (if 0 < step then low else high)
    let last := (stop.map (clamp length low high)).getD (if 0 < step then high else low)
    .ok ((positions first step (stepCount first last step)).filterMap fun position =>
      trees[position.toNat]?)

end Qualify.Forest
