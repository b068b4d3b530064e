import Qualify.Proofs.Piece.Cut
import Qualify.Proofs.Piece.Nested
import Qualify.Tree.Lex

/-!
# Which texts are read

A text is read exactly when its pieces reach the end of it and their delimiters are well
nested. Any other text is refused for the first thing that is wrong, from left to right:
a closing delimiter that does not fit, or a character at which no terminal matches; and
where nothing is wrong up to the end, for the innermost group that is still open there.
`Refused` says so by what stands in the text, and `lex_outcome` that reading agrees.

## Main definitions

- `Piece.Scanned` — the first pieces of a text, and what is left of it
- `Forest.Refused` — the error a text is refused with
-/

namespace Qualify

namespace Piece

/-! ### The first pieces of a text -/

/-- The text from a position on starts with pieces, each of them the first match of what is
left when its turn comes; the position behind them and the text left there. -/
inductive Scanned : Position → List Char → List Piece → Position → List Char → Prop
  | nil (position : Position) (text : List Char) : Scanned position text [] position text
  | cons {position stop : Position} {terminal : Terminal} {lexeme rest left : List Char}
      {pieces : List Piece} (first : Terminal.first? (lexeme ++ rest) = some (terminal, lexeme))
      (scanned : Scanned (position.after lexeme) rest pieces stop left) :
      Scanned position (lexeme ++ rest)
        (⟨terminal, lexeme, position, position.after lexeme⟩ :: pieces) stop left

/-- Scanning finds the first pieces of a text and goes on with what is left. -/
theorem Scanned.scanFrom_eq {position stop : Position} {text left : List Char}
    {pieces : List Piece} (h : Scanned position text pieces stop left) :
    scanFrom 0 position text =
      { scanFrom 0 stop left with pieces := pieces ++ (scanFrom 0 stop left).pieces } := by
  induction h with
  | nil position text => rfl
  | cons first _ ih =>
    rw [scanFrom_append _ first, ih]
    rfl

theorem Scanned.scanFrom_eq_of_nil {position stop : Position} {text : List Char}
    {pieces : List Piece} (h : Scanned position text pieces stop []) :
    scanFrom 0 position text = ⟨pieces, none⟩ := by
  rw [h.scanFrom_eq, scanFrom, List.append_nil]

theorem Scanned.scanFrom_eq_of_stuck {position stop : Position} {text rest : List Char} {c : Char}
    {pieces : List Piece} (h : Scanned position text pieces stop (c :: rest))
    (hstuck : Terminal.first? (c :: rest) = none) :
    scanFrom 0 position text = ⟨pieces, some (c, stop)⟩ := by
  rw [h.scanFrom_eq, scanFrom, hstuck, List.append_nil]

/-- Some of the first pieces are the first pieces too. -/
theorem Scanned.exists_of_append {position stop : Position} {text left : List Char}
    {front back : List Piece} (h : Scanned position text (front ++ back) stop left) :
    ∃ middle rest, Scanned position text front middle rest := by
  induction front generalizing position text with
  | nil => exact ⟨position, text, .nil position text⟩
  | cons piece front ih =>
    cases h with
    | cons first scanned =>
      obtain ⟨middle, rest, hfront⟩ := ih scanned
      exact ⟨middle, rest, .cons first hfront⟩

/-- Pieces reach the end of a text, or a character at which no terminal matches. -/
theorem exists_scanned (position : Position) (text : List Char) :
    ∃ pieces stop, Scanned position text pieces stop [] ∨
      ∃ c rest, Scanned position text pieces stop (c :: rest) ∧
        Terminal.first? (c :: rest) = none := by
  -- What is left behind a piece is shorter than the text.
  induction hlength : text.length using Nat.strongRecOn generalizing text position with
  | ind length ih =>
    cases text with
    | nil => exact ⟨[], position, .inl (.nil position [])⟩
    | cons c after =>
      cases hfirst : Terminal.first? (c :: after) with
      | none => exact ⟨[], position, .inr ⟨c, after, .nil position _, hfirst⟩⟩
      | some found =>
        obtain ⟨terminal, lexeme⟩ := found
        obtain ⟨hne, rest, hrest⟩ := Terminal.first?_prefixing hfirst
        have hshort : rest.length < length := by
          have hpos := List.length_pos_iff.mpr hne
          rw [← hlength, hrest, List.length_append]
          omega
        rw [hrest] at hfirst ⊢
        obtain ⟨pieces, stop, hend | ⟨d, left, hscanned, hstuck⟩⟩ :=
          ih rest.length hshort (position.after lexeme) rest rfl
        · exact ⟨_, stop, .inl (.cons hfirst hend)⟩
        · exact ⟨_, stop, .inr ⟨d, left, .cons hfirst hscanned, hstuck⟩⟩

end Piece

namespace Forest

open Piece (Nested Opened Innermost Scanned unclosed?)

/-! ### Matching the delimiters of pieces -/

/-- An opener and the group it opened. -/
def Opens (file : Option String) (opener : Piece) (group : OpenGroup) : Prop :=
  opener.terminal = .opener group.delimiter ∧ group.span = opener.span file

theorem nest_other {piece : Piece} (h : piece.terminal.isDelimiter = false)
    (file : Option String) (enclosing : List OpenGroup) (level : List Tree) (rest : List Piece) :
    ∃ after, nest file enclosing level (piece :: rest) = nest file enclosing after rest := by
  rw [nest]
  cases hterminal : piece.terminal with
  | opener | closer =>
    rw [hterminal] at h
    cases h
  | _ => exact ⟨_, rfl⟩

/-- Well-nested pieces leave the open groups as they were. -/
theorem exists_nest_nested {pieces : List Piece} (h : Nested pieces) (file : Option String)
    (enclosing : List OpenGroup) (level : List Tree) (rest : List Piece) :
    ∃ after, nest file enclosing level (pieces ++ rest) = nest file enclosing after rest := by
  induction h generalizing enclosing level rest with
  | nil => exact ⟨level, rfl⟩
  | @other piece others isOther _ ih =>
    obtain ⟨middle, hmiddle⟩ := nest_other isOther file enclosing level (others ++ rest)
    obtain ⟨after, hafter⟩ := ih enclosing middle rest
    exact ⟨after, hmiddle.trans hafter⟩
  | @group opener closer delimiter inner others isOpener isCloser _ _ ihinner ih =>
    let group : OpenGroup := ⟨delimiter, opener.span file, level⟩
    obtain ⟨middle, hmiddle⟩ := ihinner (group :: enclosing) [] (closer :: (others ++ rest))
    obtain ⟨after, hafter⟩ :=
      ih enclosing (.group delimiter middle.reverse group.span :: group.outer) rest
    refine ⟨after, ?_⟩
    rw [List.cons_append, List.append_assoc, List.cons_append, nest, isOpener]
    refine hmiddle.trans ?_
    rw [nest, isCloser]
    simp only [group, if_true]
    exact hafter

/-- Behind pieces with open openers the open groups are theirs. -/
theorem exists_nest_opened {stack pieces : List Piece} (h : Opened stack pieces)
    (file : Option String) (rest : List Piece) :
    ∃ groups level, List.Forall₂ (Opens file) stack groups ∧
      nest file [] [] (pieces ++ rest) = nest file groups level rest := by
  induction h generalizing rest with
  | closed nested =>
    obtain ⟨level, hlevel⟩ := exists_nest_nested nested file [] [] rest
    exact ⟨[], level, .nil, hlevel⟩
  | @opened stack before after opener delimiter _ isOpener nested ih =>
    obtain ⟨groups, outer, hgroups, hbefore⟩ := ih (opener :: (after ++ rest))
    let group : OpenGroup := ⟨delimiter, opener.span file, outer⟩
    obtain ⟨level, hlevel⟩ := exists_nest_nested nested file (group :: groups) [] rest
    refine ⟨group :: groups, level, .cons ⟨isOpener, rfl⟩ hgroups, ?_⟩
    rw [List.append_assoc, List.cons_append, hbefore, nest, isOpener]
    exact hlevel

theorem head?_delimiter {file : Option String} {stack : List Piece} {groups : List OpenGroup}
    (h : List.Forall₂ (Opens file) stack groups) :
    groups.head?.map (·.delimiter) = stack.head?.bind Piece.opens? := by
  cases h with
  | nil => rfl
  | cons opens _ => exact (Piece.opens?_of_opener opens.1).symm

/-- A closing delimiter that does not fit the innermost open group is the error. -/
theorem nest_misfit {stack before : List Piece} {closer : Piece} {delimiter : Delimiter}
    (h : Opened stack before) (hcloser : closer.terminal = .closer delimiter)
    (hmisfit : stack.head?.bind Piece.opens? ≠ some delimiter) (file : Option String)
    (after : List Piece) :
    nest file [] [] (before ++ closer :: after) =
      .error ⟨.unexpectedCloser delimiter (stack.head?.bind Piece.opens?), closer.span file⟩ := by
  obtain ⟨groups, level, hgroups, hnest⟩ := exists_nest_opened h file (closer :: after)
  rw [← head?_delimiter hgroups] at hmisfit ⊢
  rw [hnest, nest, hcloser]
  cases groups with
  | nil => rfl
  | cons group outer =>
    have hne : group.delimiter ≠ delimiter := by simpa using hmisfit
    simp only [if_neg hne]
    rfl

/-- Pieces that can go on to become well nested are well nested between open openers. -/
theorem exists_opened {pieces : List Piece} (h : ∃ more, Nested (pieces ++ more)) :
    ∃ stack, Opened stack pieces := by
  obtain ⟨more, hmore⟩ := h
  rcases Piece.exists_opened_or_misfit pieces with hopened |
    ⟨before, closer, after, delimiter, stack, rfl, hcloser, hopened, hmisfit⟩
  · exact hopened
  · -- Matching the delimiters of well-nested pieces meets none that does not fit.
    obtain ⟨level, hlevel⟩ := exists_nest_nested hmore none [] [] []
    rw [List.append_nil, List.append_assoc, List.cons_append,
      nest_misfit hopened hcloser hmisfit] at hlevel
    cases hlevel

/-- The innermost open group is the one whose opener was put on the stack last. -/
theorem exists_opened_innermost {pieces : List Piece} {innermost : Option Delimiter}
    (h : ∃ more, Nested (pieces ++ more)) (hinnermost : Innermost pieces innermost) :
    ∃ stack, Opened stack pieces ∧ stack.head?.bind Piece.opens? = innermost := by
  cases hinnermost with
  | outside nested => exact ⟨[], .closed nested, rfl⟩
  | @inside before after opener delimiter isOpener nested =>
    obtain ⟨more, hmore⟩ := h
    rw [List.append_assoc] at hmore
    obtain ⟨stack, hopened⟩ := exists_opened ⟨_, hmore⟩
    exact ⟨opener :: stack, .opened hopened isOpener nested, Piece.opens?_of_opener isOpener⟩

/-! ### Reading a text -/

/-- The error that a text is refused with. Each of the three is the first thing that is
wrong: the pieces in front of it can go on to become well nested. -/
inductive Refused (file : Option String) (text : List Char) (error : SyntaxError) : Prop
  /-- A closing delimiter does not close the innermost open group. What would be accepted is
  the delimiter that does. -/
  | closer {pieces : List Piece} {closer : Piece} {delimiter : Delimiter}
      {innermost : Option Delimiter} {stop : Position} {left : List Char}
      (scanned : Scanned {} text (pieces ++ [closer]) stop left)
      (sound : ∃ more, Nested (pieces ++ more))
      (isCloser : closer.terminal = .closer delimiter)
      (isInnermost : Innermost pieces innermost) (misfit : innermost ≠ some delimiter)
      (cause : error.cause = .unexpectedCloser delimiter innermost)
      (span : error.span = closer.span file)
      (expected : error.expected = innermost.toList.map Delimiter.closer) :
      Refused file text error
  /-- No terminal matches at a character. -/
  | character {pieces : List Piece} {c : Char} {stop : Position} {left : List Char}
      (scanned : Scanned {} text pieces stop (c :: left))
      (sound : ∃ more, Nested (pieces ++ more)) (stuck : Terminal.first? (c :: left) = none)
      (cause : error.cause = .unexpectedCharacter c)
      (span : error.span = { file, line := some stop.line, column := some stop.column })
      (expected : error.expected = []) : Refused file text error
  /-- The text ends inside a group, the innermost of which is reported. It is the one that
  a second pass over the pieces finds. -/
  | unclosed {before after : List Piece} {opener : Piece} {delimiter : Delimiter}
      {stop : Position} (scanned : Scanned {} text (before ++ opener :: after) stop [])
      (sound : ∃ more, Nested (before ++ opener :: after ++ more))
      (isOpener : opener.terminal = .opener delimiter) (nested : Nested after)
      (found : unclosed? [] (before ++ opener :: after) = some opener)
      (cause : error.cause = .unclosedOpener delimiter) (span : error.span = opener.span file)
      (expected : error.expected = [delimiter.closer]) : Refused file text error

variable {file : Option String} {source : String}

theorem lex_of_misfit {pieces : List Piece} {closer : Piece} {delimiter : Delimiter}
    {stack : List Piece} {stop : Position} {left : List Char}
    (hscanned : Scanned {} source.toList (pieces ++ [closer]) stop left)
    (hopened : Opened stack pieces) (hcloser : closer.terminal = .closer delimiter)
    (hmisfit : stack.head?.bind Piece.opens? ≠ some delimiter) :
    lex file source =
      .error ⟨.unexpectedCloser delimiter (stack.head?.bind Piece.opens?), closer.span file⟩ := by
  rw [lex, Piece.scan, hscanned.scanFrom_eq]
  simp only [List.append_assoc, List.singleton_append]
  rw [nest_misfit hopened hcloser hmisfit]

theorem lex_of_stuck {pieces stack : List Piece} {c : Char} {stop : Position} {left : List Char}
    (hscanned : Scanned {} source.toList pieces stop (c :: left))
    (hstuck : Terminal.first? (c :: left) = none) (hopened : Opened stack pieces) :
    lex file source =
      .error ⟨.unexpectedCharacter c,
        { file, line := some stop.line, column := some stop.column }⟩ := by
  obtain ⟨groups, level, -, hnest⟩ := exists_nest_opened hopened file []
  rw [List.append_nil, nest] at hnest
  rw [lex, Piece.scan, hscanned.scanFrom_eq_of_stuck hstuck]
  simp only [hnest]

theorem lex_of_unclosed {pieces stack : List Piece} {opener : Piece} {delimiter : Delimiter}
    {stop : Position} (hscanned : Scanned {} source.toList pieces stop [])
    (hopened : Opened (opener :: stack) pieces) (hopener : opener.terminal = .opener delimiter) :
    lex file source = .error ⟨.unclosedOpener delimiter, opener.span file⟩ := by
  obtain ⟨groups, level, hgroups, hnest⟩ := exists_nest_opened hopened file []
  rw [List.append_nil, nest] at hnest
  rw [lex, Piece.scan, hscanned.scanFrom_eq_of_nil]
  cases hgroups with
  | @cons _ group _ outer opens _ =>
    obtain ⟨hterminal, hspan⟩ := opens
    have hdelimiter : group.delimiter = delimiter := by
      rw [hopener] at hterminal
      exact (Terminal.opener.inj hterminal).symm
    simp only [hnest, hspan, hdelimiter]

theorem lex_of_nested {pieces : List Piece} {stop : Position}
    (hscanned : Scanned {} source.toList pieces stop []) (hnested : Nested pieces) :
    ∃ trees, lex file source = .ok trees := by
  obtain ⟨level, hnest⟩ := exists_nest_nested hnested file [] [] []
  rw [List.append_nil, nest] at hnest
  refine ⟨level.reverse, ?_⟩
  rw [lex, Piece.scan, hscanned.scanFrom_eq_of_nil]
  simp only [hnest]

/-- A text that is refused is refused with its error. -/
theorem Refused.lex_eq_error {error : SyntaxError} (h : Refused file source.toList error) :
    lex file source = .error error := by
  cases error with
  | mk cause span =>
    cases h with
    | closer scanned sound isCloser isInnermost misfit hcause hspan =>
      obtain ⟨stack, hopened, rfl⟩ := exists_opened_innermost sound isInnermost
      cases hcause
      cases hspan
      exact lex_of_misfit scanned hopened isCloser misfit
    | character scanned sound stuck hcause hspan =>
      obtain ⟨stack, hopened⟩ := exists_opened sound
      cases hcause
      cases hspan
      exact lex_of_stuck scanned stuck hopened
    | unclosed scanned sound isOpener nested _ hcause hspan =>
      obtain ⟨more, hmore⟩ := sound
      rw [List.append_assoc] at hmore
      obtain ⟨stack, hopened⟩ := exists_opened ⟨_, hmore⟩
      cases hcause
      cases hspan
      exact lex_of_unclosed scanned (.opened hopened isOpener nested) isOpener

/-- Every text is read or refused. -/
theorem exists_nested_or_refused (file : Option String) (text : List Char) :
    (∃ pieces stop, Scanned {} text pieces stop [] ∧ Nested pieces) ∨
      ∃ error, Refused file text error := by
  obtain ⟨pieces, stop, hend⟩ := Piece.exists_scanned {} text
  rcases Piece.exists_opened_or_misfit pieces with ⟨stack, hopened⟩ |
    ⟨before, closer, after, delimiter, stack, rfl, hcloser, hopened, hmisfit⟩
  · rcases hend with hend | ⟨c, left, hscanned, hstuck⟩
    · have hsound := hopened.exists_nested
      have hfound := hopened.unclosed?_eq
      cases hopened with
      | closed nested => exact .inl ⟨pieces, stop, hend, nested⟩
      | @opened _ _ _ opener delimiter _ isOpener nested =>
        exact .inr ⟨⟨.unclosedOpener delimiter, opener.span file⟩,
          .unclosed hend hsound isOpener nested hfound rfl rfl rfl⟩
    · exact .inr ⟨⟨.unexpectedCharacter c, _⟩,
        .character hscanned hopened.exists_nested hstuck rfl rfl rfl⟩
  · -- What comes behind a delimiter that does not fit is not looked at.
    have hscanned : ∃ middle left, Scanned {} text (before ++ [closer]) middle left := by
      rw [← List.singleton_append, ← List.append_assoc] at hend
      rcases hend with hend | ⟨c, left, hscanned, -⟩
      · exact hend.exists_of_append
      · exact hscanned.exists_of_append
    obtain ⟨middle, left, hscanned⟩ := hscanned
    exact .inr ⟨⟨.unexpectedCloser delimiter _, closer.span file⟩,
      .closer hscanned hopened.exists_nested hcloser hopened.innermost hmisfit rfl rfl rfl⟩

theorem Refused.kind_eq {text : List Char} {error : SyntaxError}
    (h : Refused file text error) : error.kind = .lexical := by
  rw [SyntaxError.kind]
  cases h with
  | closer _ _ _ _ _ cause => rw [cause, Cause.kind]
  | character _ _ _ cause => rw [cause, Cause.kind]
  | unclosed _ _ _ _ _ cause => rw [cause, Cause.kind]

/-- A text is read exactly when its pieces reach the end and are well nested. Otherwise it
is refused with a lexical error, for what is wrong first in it, and with no other one. -/
theorem lex_outcome (file : Option String) (source : String) :
    ((∃ trees, lex file source = .ok trees) ↔
      ∃ pieces stop, Scanned {} source.toList pieces stop [] ∧ Nested pieces) ∧
    ∀ error, lex file source = .error error ↔
      error.kind = .lexical ∧ Refused file source.toList error := by
  have hcases := exists_nested_or_refused file source.toList
  refine ⟨⟨?_, ?_⟩, fun error => ⟨?_, ?_⟩⟩
  · rintro ⟨trees, htrees⟩
    rcases hcases with hnested | ⟨error, hrefused⟩
    · exact hnested
    · rw [hrefused.lex_eq_error] at htrees
      cases htrees
  · rintro ⟨pieces, stop, hscanned, hnested⟩
    exact lex_of_nested hscanned hnested
  · intro herror
    rcases hcases with ⟨pieces, stop, hscanned, hnested⟩ | ⟨found, hrefused⟩
    · obtain ⟨trees, htrees⟩ := lex_of_nested hscanned hnested
      rw [htrees] at herror
      cases herror
    · rw [hrefused.lex_eq_error] at herror
      cases herror
      exact ⟨hrefused.kind_eq, hrefused⟩
  · rintro ⟨-, hrefused⟩
    exact hrefused.lex_eq_error

/-- A delimiter that does not fit is reported in front of a character that no terminal
matches, and in front of a group that is never closed. -/
example : lex none "\x7b(\x22)\x22] \\" =
    .error ⟨.unexpectedCloser .bracket (some .paren), ⟨none, some 1, some 6, some 1, some 7⟩⟩ := by
  cbv

end Forest

end Qualify
