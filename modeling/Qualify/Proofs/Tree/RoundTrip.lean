import Qualify.Proofs.Tree.Readable

/-!
# Reading, writing and reading again

What is read from a text is readable (`Cut.readable`): every token is a lexeme of
its terminal, ticks stand in front of names, a joint mark is followed by a mark, and a
slash never opens a comment, since it would have been read as one. The last point
looks far ahead: an unclosed `/*` is read as two marks, so the text written for the
events must not close it either (`Cut.infix_of_closes`). Hence a level that was read is
read again from its own text (`lex_render`).
-/

namespace Qualify

namespace Piece

/-! ### Marks and the pieces behind them -/

theorem exists_mark_of_first? {text lexeme : List Char}
    (h : Terminal.first? text = some (.punct, lexeme)) :
    ∃ c ∈ Terminal.marks, lexeme = [c] := by
  have hmark : Terminal.mark? text = some lexeme := (Terminal.first?_eq_some_iff.mp h).2.1
  unfold Terminal.mark? at hmark
  split at hmark
  · next c rest =>
    split at hmark
    · next hc =>
      cases hmark
      exact ⟨c, by simpa using hc, rfl⟩
    · cases hmark
  · cases hmark

/-- A piece that a mark is joint to gives a mark first: a tick, or a mark that is the
next character of the text. -/
theorem Cut.exists_mark_of_joins {position : Position} {text : List Char} {pieces : List Piece}
    (hcut : Cut position text pieces) (file : Option String)
    (hjoins : pieces.head?.any joins = true) :
    ∃ next rest, events file pieces = .token (.punct next) :: rest ∧
      (next.text = "'" ∨ ∃ c after place later, next.text.toList = [c] ∧ text = c :: after ∧
        Cut place after later ∧ rest = events file later) := by
  cases hcut with
  | nil => cases hjoins
  | @cons _ terminal lexeme after later first cut =>
    have hkind : terminal = .punct ∨ terminal = .lifetime := by simpa [joins] using hjoins
    rcases hkind with rfl | rfl
    · obtain ⟨c, -, rfl⟩ := exists_mark_of_first? first
      exact ⟨_, _, rfl, .inr ⟨c, after, _, later, by simp, rfl, cut, rfl⟩⟩
    · exact ⟨_, _, rfl, .inl rfl⟩

/-! ### What is read is readable -/

/-- The end of a comment among the events of a text is one in the text. -/
theorem Cut.infix_of_closes {position : Position} {text : List Char} {pieces : List Piece}
    (hcut : Cut position text pieces) {file : Option String}
    (h : Event.Closes (events file pieces)) : ['*', '/'] <:+: text := by
  induction hcut with
  | nil => cases h
  | @cons position terminal lexeme rest pieces first cut ih =>
    -- An end behind the piece is an end in the rest of the text.
    have hlater (hrest : Event.Closes (events file pieces)) : ['*', '/'] <:+: lexeme ++ rest :=
      (ih hrest).trans (List.suffix_append lexeme rest).isInfix
    cases terminal with
    | blockComment | lineComment | blank => exact hlater h
    | opener | closer | ident =>
      cases h with
      | later hrest => exact hlater hrest
    | number | rawString | string | character =>
      cases h with
      | later hrest => exact hlater hrest
      | literal htext =>
        simp only [String.toList_ofList] at htext
        exact htext.trans (List.prefix_append lexeme rest).isInfix
    | lifetime =>
      cases h with
      | later hname =>
        cases hname with
        | later hrest => exact hlater hrest
    | punct =>
      obtain ⟨c, -, rfl⟩ := exists_mark_of_first? first
      rcases Event.Closes.punct_cases h with ⟨hstar, hjoint, slash, after, hslash, hevents⟩ | hrest
      · have hjoins : pieces.head?.any joins = true := by simpa using hjoint
        obtain rfl : c = '*' := by simpa using congrArg String.toList hstar
        have hevents : events file pieces = .token (.punct slash) :: after := hevents
        obtain ⟨next, others, hnext, hcases⟩ := cut.exists_mark_of_joins file hjoins
        rw [hevents] at hnext
        cases hnext
        rcases hcases with htick | ⟨d, following, -, -, hd, rfl, -, -⟩
        · rw [hslash] at htick
          exact absurd htick (by decide)
        · rw [hslash] at hd
          obtain rfl : '/' = d := by simpa using hd
          exact ⟨[], following, rfl⟩
      · exact hlater hrest

/-- A slash that was read as a mark opens no comment among the events behind it. -/
theorem Cut.not_opensComment {position : Position} {rest : List Char} {pieces : List Piece}
    {next : Punct} {others : List Event} {file : Option String}
    (first : Terminal.first? ('/' :: rest) = some (.punct, ['/']))
    (hjoins : pieces.head?.any joins = true) (cut : Cut position rest pieces)
    (hevents : events file pieces = .token (.punct next) :: others) :
    ¬ Event.OpensComment next others := by
  obtain ⟨-, -, hearlier⟩ := Terminal.first?_eq_some_iff.mp first
  have hblock : Terminal.blockComment? ('/' :: rest) = none := hearlier .blockComment (by decide)
  have hline : Terminal.lineComment? ('/' :: rest) = none := hearlier .lineComment (by decide)
  obtain ⟨found, following, hfound, hcases⟩ := cut.exists_mark_of_joins file hjoins
  rw [hevents] at hfound
  cases hfound
  rcases hcases with htick | ⟨c, after, place, later, hc, rfl, hcut, rfl⟩
  · rintro (hslash | ⟨hstar, -⟩)
    · exact absurd (htick.symm.trans hslash) (by decide)
    · exact absurd (htick.symm.trans hstar) (by decide)
  · rintro (hslash | ⟨hstar, hcloses⟩)
    · rw [hslash] at hc
      obtain rfl : '/' = c := by simpa using hc
      cases hline
    · rw [hstar] at hc
      obtain rfl : '*' = c := by simpa using hc
      have hthrough : Terminal.through? '*' '/' after = none := by
        simpa [Terminal.blockComment?] using hblock
      exact Terminal.through?_eq_none_iff.mp hthrough (hcut.infix_of_closes hcloses)

/-- The events of a text that was cut into pieces are readable. -/
theorem Cut.readable {position : Position} {text : List Char} {pieces : List Piece}
    (hcut : Cut position text pieces) (file : Option String) :
    Event.Readable (events file pieces) := by
  induction hcut with
  | nil => exact .nil
  | @cons position terminal lexeme rest pieces first cut ih =>
    obtain ⟨horder, hlexeme, -⟩ := Terminal.first?_eq_some_iff.mp first
    cases terminal with
    | blockComment | lineComment | blank => exact ih
    | opener delimiter =>
      refine .opening ?_ ih
      rintro rfl
      exact absurd horder (by decide)
    | closer delimiter =>
      refine .closing ?_ ih
      rintro rfl
      exact absurd horder (by decide)
    | ident =>
      refine .ident ?_ ih
      simpa using Terminal.isIdent_of_ident? hlexeme
    | number | rawString | string | character =>
      exact .literal rfl (hlexeme.trans (by simp)) ih
    | lifetime =>
      obtain ⟨name, hname, rfl⟩ := Terminal.exists_name_of_lifetime? hlexeme
      exact .lifetime rfl rfl (by simpa using hname) ih
    | punct =>
      obtain ⟨c, hc, rfl⟩ := exists_mark_of_first? first
      cases hjoins : pieces.head?.any joins with
      | false =>
        refine .alone hc (by simp) ?_ ih
        simp [hjoins]
      | true =>
        obtain ⟨next, others, hnext, -⟩ := cut.exists_mark_of_joins file hjoins
        rw [events, hnext]
        refine .joint hc (by simp) ?_ ?_ (hnext ▸ ih)
        · simp [hjoins]
        · rintro rfl
          exact cut.not_opensComment first hjoins hnext

/-- The characters of a token stand in the text. -/
theorem Cut.mem_text {position : Position} {text : List Char} {pieces : List Piece}
    (hcut : Cut position text pieces) {file : Option String} {value : Token} {c : Char}
    (h : .token value ∈ events file pieces) (hc : c ∈ value.text.toList) : c ∈ text := by
  induction hcut with
  | nil => cases h
  | @cons position terminal lexeme rest pieces first cut ih =>
    rw [events, List.mem_append] at h
    rcases h with h | h
    · refine List.mem_append_left rest ?_
      cases terminal with
      | blockComment | lineComment | blank => cases h
      | opener | closer => simp [flat] at h
      | number | rawString | string | character | ident | punct =>
        obtain rfl : value = _ := by simpa [flat, tokens] using h
        simpa [Token.text] using hc
      | lifetime =>
        obtain ⟨name, -, rfl⟩ :=
          Terminal.exists_name_of_lifetime? (Terminal.first?_eq_some_iff.mp first).2.1
        simp only [flat, tokens, List.map_cons, List.map_nil, List.mem_cons, Event.token.injEq,
          List.not_mem_nil, or_false] at h
        rcases h with rfl | rfl
        · have htick : c ∈ "'".toList := hc
          exact List.mem_cons.mpr (.inl (List.mem_singleton.mp htick))
        · exact List.mem_cons_of_mem _ (by simpa [Token.text] using hc)
    · exact List.mem_append_right lexeme (ih h)

end Piece

/-- What was read from a text is readable. -/
theorem Forest.readable_of_lex {file : Option String} {source : String} {trees : Forest}
    (h : Forest.lex file source = .ok trees) : Event.Readable (Forest.events trees) := by
  obtain ⟨pieces, hcut, hevents⟩ := Forest.lex_eq_ok_iff.mp h
  exact hevents ▸ hcut.readable file

theorem Forest.mem_source_of_lex {file : Option String} {source : String} {trees : Forest}
    (h : Forest.lex file source = .ok trees) {value : Token} {c : Char}
    (hvalue : .token value ∈ Forest.events trees) (hc : c ∈ value.text.toList) :
    c ∈ source.toList := by
  obtain ⟨pieces, hcut, hevents⟩ := Forest.lex_eq_ok_iff.mp h
  rw [← hevents] at hvalue
  exact hcut.mem_text hvalue hc

/-- Trees that were read from a text are read again from the text written for them,
with the same delimiters, texts and spacings. -/
theorem Forest.lex_render (file other : Option String) (source : String) (trees : Forest)
    (h : Forest.lex file source = .ok trees) :
    ∃ found, Forest.lex other trees.render = .ok found ∧ found.bare = trees.bare :=
  Forest.exists_lex_render (Forest.readable_of_lex h) other

/-- An unclosed comment, lifetimes behind marks, a raw string and a number. -/
theorem Forest.lex_render_unclosed_comment :
    ∃ trees, Forest.lex none "x/*[&'a r#\x22*\x22#,1.5e+3]%'b" = .ok trees ∧
      ∃ found, Forest.lex none trees.render = .ok found ∧ found.bare = trees.bare := by
  have hok : (Forest.lex none "x/*[&'a r#\x22*\x22#,1.5e+3]%'b").toOption.isSome = true := by
    decide +kernel
  cases h : Forest.lex none "x/*[&'a r#\x22*\x22#,1.5e+3]%'b" with
  | error error =>
    rw [h] at hok
    cases hok
  | ok trees => exact ⟨trees, rfl, Forest.lex_render none none _ trees h⟩

end Qualify
