/-!
# Splitting texts

`split` cuts a text at every separator. A text with `n` separators has `n + 1`
parts, empty ones included.
-/

namespace Qualify.Text

/-- The parts of a text between separators. -/
def split (separator : Char) : List Char → List (List Char)
  | [] => [[]]
  | c :: rest =>
    if c = separator then [] :: split separator rest
    else
      match split separator rest with
      | [] => [[c]]
      | part :: parts => (c :: part) :: parts

/-- The parts of a text between separators, as texts. -/
def splitText (separator : Char) (text : String) : List String :=
  (split separator text.toList).map String.ofList

end Qualify.Text
