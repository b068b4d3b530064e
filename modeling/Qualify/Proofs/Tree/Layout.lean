import Qualify.Proofs.Tree.RoundTrip

/-!
# Where the tokens of a text stand

Reading a text loses nothing and puts nothing in another place. The text is the
concatenation of its pieces, each of the shape its terminal prescribes, and the flat
view of the trees takes the pieces in their order: blanks and comments leave nothing
behind, a delimiter is an end of a group, a lifetime is a tick and a name, and every
other piece is one token with the text of the piece. All of them carry the place of
their piece, counted in line feeds and characters from the start of the text.

## Main definitions

- `Position.behind` — the position behind a text, by counting
- `Terminal.Shape` — the texts a terminal stands for
- `Piece.Laid` — pieces behind a text, and the events they leave
- `Forest.isVisible` — no group is invisible, at any depth
- `Forest.Layout` — trees laid out in a text, piece by piece
-/

namespace Qualify

/-! ### Positions by counting -/

/-- The position behind a text: one line for each line feed, and one column for each
character since the last of them. -/
def Position.behind (text : List Char) : Position where
  line := 1 + text.count '\n'
  column := 1 + (text.reverse.takeWhile (· ≠ '\n')).length

theorem Position.behind_nil : Position.behind [] = {} := rfl

theorem Position.advance_behind (before : List Char) (c : Char) :
    (Position.behind before).advance c = Position.behind (before ++ [c]) := by
  by_cases hc : c = '\n'
  · simp [Position.advance, Position.behind, hc, Nat.add_assoc]
  · simp [Position.advance, Position.behind, hc, Nat.add_assoc]

/-- Moving on character by character counts the characters. -/
theorem Position.after_behind (before text : List Char) :
    (Position.behind before).after text = Position.behind (before ++ text) := by
  induction text generalizing before with
  | nil =>
    rw [List.append_nil]
    rfl
  | cons c rest ih =>
    calc (Position.behind before).after (c :: rest)
        = ((Position.behind before).advance c).after rest := rfl
      _ = (Position.behind (before ++ [c])).after rest := by rw [Position.advance_behind]
      _ = Position.behind (before ++ c :: rest) := by rw [ih, List.append_assoc]; rfl

example : Position.behind "a\nbc".toList = ⟨2, 3⟩ := by decide

/-- The place of a piece of text behind the text in front of it. -/
def Span.behind (file : Option String) (before text : List Char) : Span where
  file := file.filter (· ≠ "")
  line := some (Position.behind before).line
  column := some (Position.behind before).column
  endLine := some (Position.behind (before ++ text)).line
  endColumn := some (Position.behind (before ++ text)).column

/-! ### Shapes of pieces -/

namespace Terminal

/-- The texts that a terminal stands for. -/
def Shape : Terminal → List Char → Prop
  | blank, text => text ≠ [] ∧ ∀ c ∈ text, isBlank c = true
  | lineComment, text => ∃ body, text = '/' :: '/' :: body ∧ '\n' ∉ body
  | blockComment, text => ∃ body, text = '/' :: '*' :: (body ++ ['*', '/'])
  | opener delimiter, text => delimiter ≠ .invisible ∧ text = delimiter.opener.toList
  | closer delimiter, text => delimiter ≠ .invisible ∧ text = delimiter.closer.toList
  | ident, text => IsIdent text
  | lifetime, text => ∃ name, IsName name ∧ text = '\x27' :: name
  | punct, text => ∃ c ∈ marks, text = [c]
  | number, text => number.lexeme? text = some text
  | rawString, text => rawString.lexeme? text = some text
  | string, text => string.lexeme? text = some text
  | character, text => character.lexeme? text = some text

theorem exists_of_through? {a b : Char} {text lexeme : List Char}
    (h : through? a b text = some lexeme) : ∃ body, lexeme = body ++ [a, b] := by
  fun_induction through? a b text generalizing lexeme with
  | case1 c d rest hend =>
    simp only [Bool.and_eq_true, decide_eq_true_eq] at hend
    obtain ⟨rfl, rfl⟩ := hend
    cases h
    exact ⟨[], rfl⟩
  | case2 c d rest hend ih =>
    obtain ⟨later, hlater, rfl⟩ := Option.map_eq_some_iff.mp h
    obtain ⟨body, rfl⟩ := ih hlater
    exact ⟨c :: body, rfl⟩
  | case3 => cases h

theorem shape_blockComment {text lexeme : List Char} (h : blockComment? text = some lexeme) :
    blockComment.Shape lexeme := by
  unfold blockComment? at h
  split at h
  · obtain ⟨rest, hrest, rfl⟩ := Option.map_eq_some_iff.mp h
    obtain ⟨body, rfl⟩ := exists_of_through? hrest
    exact ⟨body, rfl⟩
  · cases h

theorem shape_lineComment {text lexeme : List Char} (h : lineComment? text = some lexeme) :
    lineComment.Shape lexeme := by
  unfold lineComment? at h
  split at h
  · next rest =>
    cases h
    refine ⟨_, rfl, fun hmem => ?_⟩
    have hne := forall_mem_takeWhile (fun c => decide (c ≠ '\n')) rest '\n' hmem
    simp at hne
  · cases h

theorem shape_blank {text lexeme : List Char} (h : blank? text = some lexeme) :
    blank.Shape lexeme := by
  unfold blank? at h
  split at h
  · cases h
  · next hne =>
    cases h
    exact ⟨hne, forall_mem_takeWhile isBlank text⟩

theorem eq_of_exactly? {text lexeme found : List Char} (h : exactly? lexeme text = some found) :
    found = lexeme := by
  unfold exactly? at h
  split at h
  · exact (Option.some.inj h).symm
  · cases h

/-- A first match has the shape of its terminal. -/
theorem shape_of_first? {terminal : Terminal} {text lexeme : List Char}
    (h : first? text = some (terminal, lexeme)) : terminal.Shape lexeme := by
  obtain ⟨horder, hlexeme, -⟩ := first?_eq_some_iff.mp h
  -- A literal is matched by its terminal also where nothing follows it.
  have hliteral (hl : terminal.isLiteral = true) : terminal.lexeme? lexeme = some lexeme := by
    have hwhole := lexeme?_literal hl hlexeme atEdge_nil
    rwa [List.append_nil] at hwhole
  cases terminal with
  | blockComment => exact shape_blockComment hlexeme
  | lineComment => exact shape_lineComment hlexeme
  | blank => exact shape_blank hlexeme
  | ident => exact isIdent_of_ident? hlexeme
  | lifetime => exact exists_name_of_lifetime? hlexeme
  | punct => exact Piece.exists_mark_of_first? h
  | opener delimiter =>
    refine ⟨?_, eq_of_exactly? hlexeme⟩
    rintro rfl
    exact absurd horder (by decide)
  | closer delimiter =>
    refine ⟨?_, eq_of_exactly? hlexeme⟩
    rintro rfl
    exact absurd horder (by decide)
  | number | rawString | string | character => exact hliteral rfl

end Terminal

/-! ### Pieces and the events they leave -/

namespace Piece

/-- Pieces behind the text `before`, and the events they leave, one piece after the
other. A mark is joint exactly when the very next piece is a mark or a lifetime. -/
inductive Laid (file : Option String) : List Char → List Piece → List Event → Prop
  | nil (before : List Char) : Laid file before [] []
  | trivia {before : List Char} {piece : Piece} {rest : List Piece} {events : List Event}
      (kind : piece.terminal.isTrivia = true) (laid : Laid file (before ++ piece.text) rest events) :
      Laid file before (piece :: rest) events
  | opening {before : List Char} {piece : Piece} {rest : List Piece} {events : List Event}
      {delimiter : Delimiter} (kind : piece.terminal = .opener delimiter)
      (laid : Laid file (before ++ piece.text) rest events) :
      Laid file before (piece :: rest)
        (.opening delimiter (.behind file before piece.text) :: events)
  | closing {before : List Char} {piece : Piece} {rest : List Piece} {events : List Event}
      {delimiter : Delimiter} (kind : piece.terminal = .closer delimiter)
      (laid : Laid file (before ++ piece.text) rest events) :
      Laid file before (piece :: rest) (.closing delimiter :: events)
  | ident {before : List Char} {piece : Piece} {rest : List Piece} {events : List Event}
      (kind : piece.terminal = .ident) (laid : Laid file (before ++ piece.text) rest events) :
      Laid file before (piece :: rest)
        (.token (.ident ⟨String.ofList piece.text, .behind file before piece.text⟩) :: events)
  | literal {before : List Char} {piece : Piece} {rest : List Piece} {events : List Event}
      (kind : piece.terminal.isLiteral = true)
      (laid : Laid file (before ++ piece.text) rest events) :
      Laid file before (piece :: rest)
        (.token (.literal ⟨String.ofList piece.text, .behind file before piece.text⟩) :: events)
  | lifetime {before name : List Char} {piece : Piece} {rest : List Piece} {events : List Event}
      (kind : piece.terminal = .lifetime) (text : piece.text = '\x27' :: name)
      (laid : Laid file (before ++ piece.text) rest events) :
      Laid file before (piece :: rest)
        (.token (.punct ⟨"'", .joint, .behind file before piece.text⟩) ::
          .token (.ident ⟨String.ofList name, .behind file before piece.text⟩) :: events)
  | punct {before : List Char} {piece : Piece} {rest : List Piece} {events : List Event}
      {spacing : Spacing} (kind : piece.terminal = .punct)
      (joint : spacing = .joint ↔ ∃ next after, rest = next :: after ∧
        (next.terminal = .punct ∨ next.terminal = .lifetime))
      (laid : Laid file (before ++ piece.text) rest events) :
      Laid file before (piece :: rest)
        (.token (.punct ⟨String.ofList piece.text, spacing, .behind file before piece.text⟩) ::
          events)

/-- A text is the concatenation of the pieces it is cut into. -/
theorem Cut.flatMap_text {position : Position} {text : List Char} {pieces : List Piece}
    (h : Cut position text pieces) : pieces.flatMap Piece.text = text := by
  induction h with
  | nil => rfl
  | cons first cut ih => rw [List.flatMap_cons, ih]

theorem Cut.shape {position : Position} {text : List Char} {pieces : List Piece}
    (h : Cut position text pieces) : ∀ piece ∈ pieces, piece.terminal.Shape piece.text := by
  induction h with
  | nil => exact List.forall_mem_nil _
  | cons first cut ih => exact List.forall_mem_cons.mpr ⟨Terminal.shape_of_first? first, ih⟩

/-- Every piece is the first match of what is left of the text when its turn comes. -/
theorem Cut.first?_eq_some {position : Position} {text : List Char} {pieces : List Piece}
    (h : Cut position text pieces) (front : List Piece) (piece : Piece) (back : List Piece)
    (hsplit : pieces = front ++ piece :: back) :
    Terminal.first? (piece.text ++ back.flatMap Piece.text) =
      some (piece.terminal, piece.text) := by
  induction h generalizing front with
  | nil => cases front <;> cases hsplit
  | cons first cut ih =>
    cases front with
    | nil =>
      cases hsplit
      rw [cut.flatMap_text]
      exact first
    | cons other front =>
      cases hsplit
      exact ih front rfl

theorem any_joins_iff {rest : List Piece} :
    rest.head?.any joins = true ↔ ∃ next after, rest = next :: after ∧
      (next.terminal = .punct ∨ next.terminal = .lifetime) := by
  cases rest with
  | nil => simp
  | cons next after => simp [joins]

/-- The pieces of a text leave their events one after the other. -/
theorem Cut.laid {before text : List Char} {position : Position} {pieces : List Piece}
    (h : Cut position text pieces) (file : Option String) (hp : position = .behind before) :
    Laid file before pieces (events file pieces) := by
  induction h generalizing before with
  | nil => exact .nil before
  | @cons position terminal lexeme rest pieces first cut ih =>
    subst hp
    have hlaid := ih (Position.after_behind before lexeme)
    have hspan : Piece.span file ⟨terminal, lexeme, .behind before,
        (Position.behind before).after lexeme⟩ = .behind file before lexeme := by
      rw [Position.after_behind]
      rfl
    rw [events, flat]
    cases terminal with
    | blockComment | lineComment | blank => exact .trivia rfl hlaid
    | opener delimiter =>
      rw [hspan]
      exact .opening rfl hlaid
    | closer delimiter => exact .closing rfl hlaid
    | ident =>
      rw [tokens, hspan]
      exact .ident rfl hlaid
    | number | rawString | string | character =>
      rw [tokens, hspan]
      exact .literal rfl hlaid
    | lifetime =>
      obtain ⟨name, -, rfl⟩ := Terminal.shape_of_first? first
      rw [tokens, hspan]
      exact .lifetime rfl rfl hlaid
    | punct =>
      rw [tokens, hspan]
      refine .punct rfl ?_ hlaid
      rw [← any_joins_iff]
      cases pieces.head?.any joins with
      | false => simp
      | true => simp

end Piece

/-! ### Visible groups -/

mutual

/-- Whether no group of a tree is invisible. -/
def Tree.isVisible : Tree → Bool
  | .token _ => true
  | .group delimiter inner _ => delimiter ≠ .invisible && Forest.isVisible inner

/-- Whether no group of a level is invisible, at any depth. -/
def Forest.isVisible : Forest → Bool
  | [] => true
  | tree :: rest => tree.isVisible && Forest.isVisible rest

end

mutual

theorem Tree.isVisible_of_readable :
    (tree : Tree) → {rest : List Event} → Event.Readable (tree.events ++ rest) →
      tree.isVisible = true
  | .token _, _, _ => rfl
  | .group delimiter inner span, rest, h => by
    rw [Tree.events, List.cons_append, List.append_assoc] at h
    cases h with
    | opening visible readable =>
      simp [Tree.isVisible, visible, Forest.isVisible_of_readable inner readable]

/-- Among events that can be read back no group is invisible. -/
theorem Forest.isVisible_of_readable :
    (trees : Forest) → {rest : List Event} → Event.Readable (Forest.events trees ++ rest) →
      Forest.isVisible trees = true
  | [], _, _ => rfl
  | tree :: trees, rest, h => by
    rw [Forest.events, List.append_assoc] at h
    rw [Forest.isVisible, tree.isVisible_of_readable h,
      Forest.isVisible_of_readable trees h.of_append]
    rfl

end

theorem Forest.isVisible_of_lex {file : Option String} {source : String} {trees : Forest}
    (h : Forest.lex file source = .ok trees) : Forest.isVisible trees = true := by
  have hreadable := Forest.readable_of_lex h
  rw [← List.append_nil (Forest.events trees)] at hreadable
  exact Forest.isVisible_of_readable trees hreadable

/-! ### Ticks -/

theorem Terminal.tick_notMem_marks : '\x27' ∉ Terminal.marks := by decide

/-- Among events that can be read back a tick is joint, and a name follows it. -/
theorem Event.Readable.exists_name {mark : Punct} {rest : List Event}
    (h : Event.Readable (.token (.punct mark) :: rest)) (hmark : mark.text = "'") :
    mark.spacing = .joint ∧ ∃ name after, rest = .token (.ident name) :: after := by
  have hchar {c : Char} (hc : c ∈ Terminal.marks) (htext : mark.text.toList = [c]) : False := by
    rw [hmark] at htext
    cases htext
    exact Terminal.tick_notMem_marks hc
  cases h with
  | lifetime _ joint _ _ => exact ⟨joint, _, _, rfl⟩
  | alone isMark text _ _ => exact (hchar isMark text).elim
  | joint isMark text _ _ _ => exact (hchar isMark text).elim

/-! ### Trees in their text -/

/-- The trees of a text laid out in it: the text is its pieces, every piece is the first
match of what is left at its turn and has the shape of its terminal, and the pieces
leave the events of the trees. -/
structure Forest.Layout (file : Option String) (text : List Char) (pieces : List Piece)
    (trees : Forest) : Prop where
  text : text = pieces.flatMap Piece.text
  first : ∀ front piece back, pieces = front ++ piece :: back →
    Terminal.first? (piece.text ++ back.flatMap Piece.text) = some (piece.terminal, piece.text)
  shape : ∀ piece ∈ pieces, piece.terminal.Shape piece.text
  laid : Piece.Laid file [] pieces (Forest.events trees)
  visible : Forest.isVisible trees = true
  tick : ∀ front mark rest, Forest.events trees = front ++ .token (.punct mark) :: rest →
    mark.text = "'" → mark.spacing = .joint ∧ ∃ name after, rest = .token (.ident name) :: after

/-- Reading a text loses nothing and puts every token where its piece stands. -/
theorem Forest.exists_layout_of_lex (file : Option String) (source : String) (trees : Forest)
    (h : Forest.lex file source = .ok trees) :
    ∃ pieces, Forest.Layout file source.toList pieces trees := by
  obtain ⟨pieces, hcut, hevents⟩ := Forest.lex_eq_ok_iff.mp h
  have hlaid := hcut.laid file Position.behind_nil.symm
  rw [hevents] at hlaid
  refine ⟨pieces, hcut.flatMap_text.symm, hcut.first?_eq_some, hcut.shape, hlaid,
    Forest.isVisible_of_lex h, ?_⟩
  intro front mark rest hfront hmark
  have hreadable := Forest.readable_of_lex h
  rw [hfront] at hreadable
  exact hreadable.of_append.exists_name hmark

/-- A comment and a string over two lines, marks joint to a mark and to a lifetime, and
a comment between two colons. -/
theorem Forest.exists_layout_of_lex_lines :
    ∃ trees pieces, Forest.lex none "a/*\n*/::b:/**/:\x22\n\x22(&'c)//d" = .ok trees ∧
      Forest.Layout none "a/*\n*/::b:/**/:\x22\n\x22(&'c)//d".toList pieces trees := by
  have hok : (Forest.lex none "a/*\n*/::b:/**/:\x22\n\x22(&'c)//d").toOption.isSome = true := by
    decide +kernel
  obtain ⟨trees, htrees⟩ := Option.isSome_iff_exists.mp hok
  have hlex := eq_ok_of_toOption htrees
  obtain ⟨pieces, hlayout⟩ := Forest.exists_layout_of_lex none _ trees hlex
  exact ⟨trees, pieces, hlex, hlayout⟩

end Qualify
