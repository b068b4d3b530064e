import Qualify.Piece
import Qualify.Proofs.Terminal.First

/-!
# Cutting a text into pieces

`Cut` says by induction what it means that a text is cut into pieces: each piece is
the first match of the text that is left when its turn comes, and the positions of
its two ends are where its characters stand. `scanFrom_eq_iff_cut` shows that scanning
reaches the end of a text exactly when the text can be cut, and finds that cut.

## Main definitions

- `Piece.Cut` — a text from a position on, cut into pieces
- `Piece.events` — the flat view of the trees that pieces stand for
-/

namespace Qualify

theorem Terminal.first?_prefixing {text lexeme : List Char} {terminal : Terminal}
    (h : first? text = some (terminal, lexeme)) :
    lexeme ≠ [] ∧ ∃ rest, text = lexeme ++ rest :=
  lexeme?_prefixing terminal (first?_eq_some_iff.mp h).2.1

/-- The position behind a text. -/
def Position.after (position : Position) (text : List Char) : Position :=
  text.foldl Position.advance position

namespace Piece

/-! ### Scanning finds the cut -/

/-- The text from a position on is cut into pieces. -/
inductive Cut : Position → List Char → List Piece → Prop
  | nil (position : Position) : Cut position [] []
  | cons {position : Position} {terminal : Terminal} {lexeme rest : List Char}
      {pieces : List Piece} (first : Terminal.first? (lexeme ++ rest) = some (terminal, lexeme))
      (cut : Cut (position.after lexeme) rest pieces) :
      Cut position (lexeme ++ rest)
        (⟨terminal, lexeme, position, position.after lexeme⟩ :: pieces)

/-- The characters of a piece that was already found are passed over. -/
theorem scanFrom_skip (position : Position) (run rest : List Char) :
    scanFrom run.length position (run ++ rest) = scanFrom 0 (position.after run) rest := by
  induction run generalizing position with
  | nil => rfl
  | cons c run ih =>
    rw [List.cons_append, List.length_cons, scanFrom]
    exact ih (position.advance c)

/-- A first match is a piece, and scanning goes on behind it. -/
theorem scanFrom_append {terminal : Terminal} {lexeme rest : List Char} (position : Position)
    (h : Terminal.first? (lexeme ++ rest) = some (terminal, lexeme)) :
    scanFrom 0 position (lexeme ++ rest) =
      { scanFrom 0 (position.after lexeme) rest with
        pieces := ⟨terminal, lexeme, position, position.after lexeme⟩ ::
          (scanFrom 0 (position.after lexeme) rest).pieces } := by
  obtain ⟨c, run, rfl⟩ := List.exists_cons_of_ne_nil (Terminal.first?_prefixing h).1
  rw [List.cons_append] at h ⊢
  have hskip := scanFrom_skip (position.advance c) run rest
  simp only [scanFrom, h, List.length_cons, Nat.add_sub_cancel, hskip]
  rfl

theorem scanFrom_of_cut {position : Position} {text : List Char} {pieces : List Piece}
    (h : Cut position text pieces) : scanFrom 0 position text = ⟨pieces, none⟩ := by
  induction h with
  | nil position => rfl
  | cons first cut ih => rw [scanFrom_append _ first, ih]

theorem cut_of_scanFrom {position : Position} {text : List Char} {pieces : List Piece}
    (h : scanFrom 0 position text = ⟨pieces, none⟩) : Cut position text pieces := by
  -- What is left behind a piece is shorter than the text.
  induction hlength : text.length using Nat.strongRecOn generalizing text position pieces with
  | ind length ih =>
    cases text with
    | nil =>
      obtain rfl : [] = pieces := congrArg Scan.pieces h
      exact .nil position
    | cons c after =>
      cases hfirst : Terminal.first? (c :: after) with
      | none =>
        rw [scanFrom, hfirst] at h
        exact absurd (congrArg Scan.stuck h) (by simp)
      | some found =>
        obtain ⟨terminal, lexeme⟩ := found
        obtain ⟨hne, rest, hrest⟩ := Terminal.first?_prefixing hfirst
        rw [hrest] at h hfirst ⊢
        rw [scanFrom_append position hfirst] at h
        obtain rfl := congrArg Scan.pieces h
        have hstuck : (scanFrom 0 (position.after lexeme) rest).stuck = none :=
          congrArg Scan.stuck h
        have hshort : rest.length < length := by
          have hpos := List.length_pos_iff.mpr hne
          rw [← hlength, hrest, List.length_append]
          omega
        refine .cons hfirst (ih rest.length hshort ?_ rfl)
        rw [← hstuck]

/-- Scanning reaches the end of a text exactly when the text can be cut, and the cut is
what it finds. -/
theorem scanFrom_eq_iff_cut {position : Position} {text : List Char} {pieces : List Piece} :
    scanFrom 0 position text = ⟨pieces, none⟩ ↔ Cut position text pieces :=
  ⟨cut_of_scanFrom, scanFrom_of_cut⟩

end Piece

end Qualify
