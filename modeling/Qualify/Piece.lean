import Qualify.Terminal
import Qualify.Tree

/-!
# Pieces of a source text

`Piece.scan` cuts a text into pieces by trying the terminals again and again at
the front of what is left, until the text ends or no terminal matches. The
characters of the pieces, put together, are the text up to that point, and each
piece knows the positions of its two ends. `Piece.tokens` are the tokens a piece
stands for.
-/

namespace Qualify

/-- A position in a text, counted from one. -/
structure Position where
  line : Nat := 1
  column : Nat := 1
deriving DecidableEq, Repr, Inhabited

/-- The position after a character; only a line feed ends a line. -/
def Position.advance (position : Position) (c : Char) : Position :=
  if c = '\n' then { line := position.line + 1, column := 1 }
  else { position with column := position.column + 1 }

/-- A piece of a text, with the positions of its first character and of the
character after its last. -/
structure Piece where
  terminal : Terminal
  text : List Char
  start : Position
  stop : Position
deriving DecidableEq, Repr

/-- The pieces of a text, and the character no terminal matches, if scanning met
one. -/
structure Scan where
  pieces : List Piece
  stuck : Option (Char × Position)
deriving DecidableEq, Repr

namespace Piece

/-- Scan from a position. The next `skip` characters belong to a piece that was
already found. -/
def scanFrom (skip : Nat) (position : Position) : List Char → Scan
  | [] => ⟨[], none⟩
  | c :: rest =>
    match skip with
    | skip + 1 => scanFrom skip (position.advance c) rest
    | 0 =>
      match Terminal.first? (c :: rest) with
      | none => ⟨[], some (c, position)⟩
      | some (terminal, text) =>
        let scan := scanFrom (text.length - 1) (position.advance c) rest
        let piece := ⟨terminal, text, position, text.foldl Position.advance position⟩
        { scan with pieces := piece :: scan.pieces }

/-- Cut a text into pieces. -/
def scan (text : List Char) : Scan := scanFrom 0 {} text

/-- The span of a piece in a file. An empty file name counts as unknown. -/
def span (file : Option String) (piece : Piece) : Span where
  file := file.filter (· ≠ "")
  line := some piece.start.line
  column := some piece.start.column
  endLine := some piece.stop.line
  endColumn := some piece.stop.column

/-- Whether a mark directly in front of this piece is joint to it. -/
def joins (piece : Piece) : Bool :=
  piece.terminal = .punct || piece.terminal = .lifetime

/-- The tokens a piece stands for, given the piece after it. A lifetime is a
joint tick and a name that share its span; trivia and delimiters give none. -/
def tokens (file : Option String) (piece : Piece) (next : Option Piece) : List Token :=
  let span := piece.span file
  let text := String.ofList piece.text
  match piece.terminal with
  | .number | .rawString | .string | .character => [.literal { text, span }]
  | .ident => [.ident { text, span }]
  | .lifetime =>
    [.punct { text := "'", spacing := .joint, span },
      .ident { text := String.ofList (piece.text.drop 1), span }]
  | .punct => [.punct { text, spacing := if next.any joins then .joint else .alone, span }]
  | .blockComment | .lineComment | .blank | .opener _ | .closer _ => []

end Piece

end Qualify
