/-!
# Line ends

A text read from a file may end its lines with a line feed, a carriage return,
or both. `unifyNewlines` turns each of them into one line feed.
-/

namespace Qualify.Text

/-- Every line end as one line feed. -/
def unifyChars : List Char → List Char
  | [] => []
  | '\r' :: '\n' :: rest => '\n' :: unifyChars rest
  | c :: rest => (if c = '\r' then '\n' else c) :: unifyChars rest

/-- A text with every line end as one line feed. -/
def unifyNewlines (text : String) : String := String.ofList (unifyChars text.toList)

/-- Lines as a text, each with its line feed. -/
def ofLines (lines : List String) : String := String.join (lines.map (· ++ "\n"))

end Qualify.Text
