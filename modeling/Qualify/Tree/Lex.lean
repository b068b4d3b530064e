import Qualify.Error
import Qualify.Piece

/-!
# Reading token trees

`Forest.lex` reads a source text: the text is cut into pieces, and the
delimiters among them are matched into groups. Faults are reported by the
leftmost one: a closing delimiter that does not close the innermost open group,
else the character at which scanning stopped, else the innermost group that is
still open at the end.
-/

namespace Qualify

/-- A group whose closing delimiter has not been read: its delimiter and place,
and the trees read before it on the level around it, last one first. -/
structure OpenGroup where
  delimiter : Delimiter
  span : Span
  outer : List Tree
deriving Repr

namespace Forest

/-- Match the delimiters of pieces into groups. `level` holds the trees read on
the innermost open level, last one first, and `enclosing` the open groups around
it, innermost first; both are returned as the pieces leave them. -/
def nest (file : Option String) (enclosing : List OpenGroup) (level : List Tree) :
    List Piece → Except SyntaxError (List OpenGroup × List Tree)
  | [] => .ok (enclosing, level)
  | piece :: rest =>
    match piece.terminal with
    | .opener delimiter =>
      nest file (⟨delimiter, piece.span file, level⟩ :: enclosing) [] rest
    | .closer delimiter =>
      match enclosing with
      | [] => .error ⟨.unexpectedCloser delimiter none, piece.span file⟩
      | group :: outer =>
        if group.delimiter = delimiter then
          nest file outer (.group delimiter level.reverse group.span :: group.outer) rest
        else .error ⟨.unexpectedCloser delimiter (some group.delimiter), piece.span file⟩
    | _ =>
      let tokens := (piece.tokens file rest.head?).map Tree.token
      nest file enclosing (tokens.reverse ++ level) rest

/-- Read a source text as token trees. -/
def lex (file : Option String) (source : String) : Except SyntaxError Forest :=
  let scan := Piece.scan source.toList
  match nest file [] [] scan.pieces with
  | .error error => .error error
  | .ok (enclosing, level) =>
    match scan.stuck, enclosing with
    | some (c, position), _ =>
      .error ⟨.unexpectedCharacter c,
        { file, line := some position.line, column := some position.column }⟩
    | none, group :: _ => .error ⟨.unclosedOpener group.delimiter, group.span⟩
    | none, [] => .ok level.reverse

end Forest

end Qualify
