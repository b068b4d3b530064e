import Qualify.Tree.Render
import Qualify.Proofs.Tree.Nesting

/-!
# Events whose text can be read back

The text of a level is written event by event; `Event.chars` is what an event list
writes, given whether its first item is glued to what stands in front. Not every
list of events can be read back from its text: two marks may be taken for the start
of a comment, a name may be no name, a mark may be called joint to nothing.
`Readable` collects what has to hold, and `Readable.reads` shows that it is enough:
the text of readable events is cut into pieces that stand for the same events.

## Main definitions

- `Event.chars` — the characters written for events
- `Event.Closes` — the text of the events ends a block comment
- `Event.Readable` — events that can be read back

## Design notes

Whether a text ends a comment is said of events (`Closes`) and not of characters,
since the blank space between the same events differs from one text to another.
-/

namespace Qualify

open Terminal (pair_infix_append pair_infix_of_notMem)

namespace Event

/-! ### The text of events -/

/-- The space in front of an item, unless it is glued to what stands there. -/
def gap (glued : Bool) : List Char := if glued then [] else [' ']

/-- The characters written for events, the first item glued or not. -/
def chars : Bool → List Event → List Char
  | _, [] => []
  | glued, .token value :: rest => gap glued ++ (value.text.toList ++ chars value.isJoint rest)
  | glued, .opening delimiter _ :: rest =>
    gap glued ++ (delimiter.opener.toList ++ chars true rest)
  | _, .closing delimiter :: rest => delimiter.closer.toList ++ chars false rest

end Event

theorem Writer.toList_item (writer : Writer) (text : String) (glued : Bool) :
    (writer.item text glued).text.toList =
      writer.text.toList ++ (Event.gap writer.glued ++ text.toList) := by
  cases hglued : writer.glued with
  | true => simp [Writer.item, Event.gap, hglued]
  | false => simp [Writer.item, Event.gap, hglued]

/-- Writing events adds their characters to the text. -/
theorem Writer.toList_foldl_feed (writer : Writer) (events : List Event) :
    (events.foldl Writer.feed writer).text.toList =
      writer.text.toList ++ Event.chars writer.glued events := by
  induction events generalizing writer with
  | nil => rw [List.foldl_nil, Event.chars, List.append_nil]
  | cons event rest ih =>
    rw [List.foldl_cons, ih]
    cases event with
    | token value =>
      simp only [Writer.feed, Writer.toList_item, Event.chars, List.append_assoc]
      rfl
    | opening delimiter span =>
      simp only [Writer.feed, Writer.toList_item, Event.chars, List.append_assoc]
      rfl
    | closing delimiter =>
      simp only [Writer.feed, String.toList_append, Event.chars, List.append_assoc]

theorem Forest.toList_render (trees : Forest) :
    trees.render.toList = Event.chars true (Forest.events trees) := by
  have h := Writer.toList_foldl_feed Writer.start (Forest.events trees)
  simpa [Forest.render, Writer.start] using h

namespace Event

/-! ### Readable events -/

/-- The text of the events holds the end of a block comment. -/
inductive Closes : List Event → Prop
  | literal {value : Literal} {rest : List Event}
      (text : ['*', '/'] <:+: value.text.toList) : Closes (.token (.literal value) :: rest)
  | marks {star slash : Punct} {rest : List Event} (star_text : star.text = "*")
      (joint : star.spacing = .joint) (slash_text : slash.text = "/") :
      Closes (.token (.punct star) :: .token (.punct slash) :: rest)
  | later {event : Event} {rest : List Event} (closes : Closes rest) : Closes (event :: rest)

/-- What ends a comment among events that start with a mark. -/
theorem Closes.punct_cases {mark : Punct} {rest : List Event}
    (h : Closes (.token (.punct mark) :: rest)) :
    (mark.text = "*" ∧ mark.spacing = .joint ∧ ∃ slash after, slash.text = "/" ∧
      rest = .token (.punct slash) :: after) ∨ Closes rest := by
  cases h with
  | marks star_text joint slash_text => exact .inl ⟨star_text, joint, _, _, slash_text, rfl⟩
  | later closes => exact .inr closes

theorem Closes.of_ident {value : Ident} {rest : List Event}
    (h : Closes (.token (.ident value) :: rest)) : Closes rest := by
  cases h with
  | later closes => exact closes

theorem Closes.of_punct {mark : Punct} {rest : List Event}
    (h : Closes (.token (.punct mark) :: rest)) (hmark : mark.text ≠ "*") : Closes rest := by
  rcases h.punct_cases with ⟨hstar, -⟩ | hrest
  · exact absurd hstar hmark
  · exact hrest

/-- A slash glued to a mark and to events behind it opens a comment. -/
def OpensComment (next : Punct) (rest : List Event) : Prop :=
  next.text = "/" ∨ next.text = "*" ∧ Closes rest

/-- Events that are read back from the text written for them. -/
inductive Readable : List Event → Prop
  | nil : Readable []
  | opening {delimiter : Delimiter} {span : Span} {rest : List Event}
      (visible : delimiter ≠ .invisible) (readable : Readable rest) :
      Readable (.opening delimiter span :: rest)
  | closing {delimiter : Delimiter} {rest : List Event}
      (visible : delimiter ≠ .invisible) (readable : Readable rest) :
      Readable (.closing delimiter :: rest)
  | ident {value : Ident} {rest : List Event} (isIdent : Terminal.IsIdent value.text.toList)
      (readable : Readable rest) : Readable (.token (.ident value) :: rest)
  | literal {value : Literal} {terminal : Terminal} {source : List Char} {rest : List Event}
      (isLiteral : terminal.isLiteral = true)
      (lexeme : terminal.lexeme? source = some value.text.toList) (readable : Readable rest) :
      Readable (.token (.literal value) :: rest)
  | lifetime {tick : Punct} {name : Ident} {rest : List Event} (text : tick.text = "'")
      (joint : tick.spacing = .joint) (isName : Terminal.IsName name.text.toList)
      (readable : Readable rest) :
      Readable (.token (.punct tick) :: .token (.ident name) :: rest)
  | alone {mark : Punct} {c : Char} {rest : List Event} (isMark : c ∈ Terminal.marks)
      (text : mark.text.toList = [c]) (alone : mark.spacing = .alone)
      (readable : Readable rest) : Readable (.token (.punct mark) :: rest)
  | joint {mark next : Punct} {c : Char} {rest : List Event} (isMark : c ∈ Terminal.marks)
      (text : mark.text.toList = [c]) (joint : mark.spacing = .joint)
      (comment : c = '/' → ¬ OpensComment next rest)
      (readable : Readable (.token (.punct next) :: rest)) :
      Readable (.token (.punct mark) :: .token (.punct next) :: rest)

/-- Readable events can be read from any of them on. -/
theorem Readable.tail {event : Event} {rest : List Event} (h : Readable (event :: rest)) :
    Readable rest := by
  cases h with
  | opening _ readable => exact readable
  | closing _ readable => exact readable
  | ident _ readable => exact readable
  | literal _ _ readable => exact readable
  | lifetime _ _ isName readable => exact .ident (.inl isName) readable
  | alone _ _ _ readable => exact readable
  | joint _ _ _ _ readable => exact readable

theorem Readable.of_append {front back : List Event} (h : Readable (front ++ back)) :
    Readable back := by
  induction front with
  | nil => exact h
  | cons event rest ih => exact ih h.tail

/-- The mark at the front of readable events is one character. -/
theorem Readable.exists_char {mark : Punct} {rest : List Event}
    (h : Readable (.token (.punct mark) :: rest)) : ∃ c, mark.text.toList = [c] := by
  cases h with
  | lifetime text _ _ _ => exact ⟨'\x27', by rw [text]; rfl⟩
  | alone _ text _ _ => exact ⟨_, text⟩
  | joint _ text _ _ _ => exact ⟨_, text⟩

theorem chars_alone {mark : Punct} {c : Char} {rest : List Event} {glued : Bool}
    (text : mark.text.toList = [c]) (alone : mark.spacing = .alone) :
    chars glued (.token (.punct mark) :: rest) = gap glued ++ ([c] ++ chars false rest) := by
  simp [chars, Token.text, Token.isJoint, text, alone]

theorem chars_joint {mark : Punct} {c : Char} {rest : List Event} {glued : Bool}
    (text : mark.text.toList = [c]) (joint : mark.spacing = .joint) :
    chars glued (.token (.punct mark) :: rest) = gap glued ++ ([c] ++ chars true rest) := by
  simp [chars, Token.text, Token.isJoint, text, joint]

theorem chars_lifetime {tick : Punct} {name : Ident} {rest : List Event} {glued : Bool}
    (text : tick.text = "'") (joint : tick.spacing = .joint) :
    chars glued (.token (.punct tick) :: .token (.ident name) :: rest) =
      gap glued ++ (['\x27'] ++ (name.text.toList ++ chars false rest)) := by
  simp [chars, Token.text, Token.isJoint, text, joint, gap]

theorem exists_opener {delimiter : Delimiter} (h : delimiter ≠ .invisible) :
    ∃ c ∈ ['(', '[', '\x7b'], delimiter.opener.toList = [c] := by
  cases delimiter with
  | invisible => exact absurd rfl h
  | paren => exact ⟨_, by decide, rfl⟩
  | brace => exact ⟨_, by decide, rfl⟩
  | bracket => exact ⟨_, by decide, rfl⟩

theorem exists_closer {delimiter : Delimiter} (h : delimiter ≠ .invisible) :
    ∃ c ∈ [')', ']', '\x7d'], delimiter.closer.toList = [c] := by
  cases delimiter with
  | invisible => exact absurd rfl h
  | paren => exact ⟨_, by decide, rfl⟩
  | brace => exact ⟨_, by decide, rfl⟩
  | bracket => exact ⟨_, by decide, rfl⟩

/-! ### Comments among readable events -/

/-- An item that is not glued is followed by an edge: a space, a closing delimiter or
the end of the text. -/
theorem Readable.atEdge {events : List Event} (h : Readable events) :
    Terminal.AtEdge (chars false events) := by
  have hspace (text : List Char) : Terminal.AtEdge (gap false ++ text) := by
    simp [Terminal.AtEdge, gap, Terminal.edges]
  cases h with
  | nil => exact Terminal.atEdge_nil
  | closing visible _ =>
    obtain ⟨c, hc, hcloser⟩ := exists_closer visible
    rw [chars, hcloser]
    intro d hd
    obtain rfl : c = d := by simpa using hd
    exact List.mem_cons_of_mem _ hc
  | opening _ _ => exact hspace _
  | ident _ _ => exact hspace _
  | literal _ _ _ => exact hspace _
  | lifetime _ _ _ _ => exact hspace _
  | alone _ _ _ _ => exact hspace _
  | joint _ _ _ _ _ => exact hspace _

theorem star_notMem_gap (glued : Bool) : '*' ∉ gap glued := by
  cases glued <;> decide

theorem star_notMem_name {name : List Char} (h : Terminal.IsName name) : '*' ∉ name :=
  fun hmem => absurd (h.forall_mem _ hmem) (by decide)

theorem star_notMem_ident {lexeme : List Char} (h : Terminal.IsIdent lexeme) : '*' ∉ lexeme := by
  rcases h with h | ⟨name, h, rfl⟩
  · exact star_notMem_name h
  · simp [star_notMem_name h]

/-- The end of a comment in the text of readable events is one among the events: a
literal holds it, or a star is joint to a slash. -/
theorem Readable.closes {events : List Event} (h : Readable events) {glued : Bool}
    (hpair : ['*', '/'] <:+: chars glued events) : Closes events := by
  have hedge {rest : List Event} (hrest : Readable rest) : (chars false rest).head? ≠ some '/' :=
    fun hhead => absurd (hrest.atEdge '/' hhead) (by decide)
  induction h generalizing glued with
  | nil => exact absurd hpair.length_le (by simp [chars])
  | opening visible _ ih =>
    obtain ⟨c, hc, hopener⟩ := exists_opener visible
    rw [chars, hopener] at hpair
    have hstar : '*' ∉ [c] := by
      intro hmem
      rw [← List.mem_singleton.mp hmem] at hc
      exact absurd hc (by decide)
    exact .later (ih (pair_infix_of_notMem hstar (pair_infix_of_notMem (star_notMem_gap _) hpair)))
  | closing visible _ ih =>
    obtain ⟨c, hc, hcloser⟩ := exists_closer visible
    rw [chars, hcloser] at hpair
    have hstar : '*' ∉ [c] := by
      intro hmem
      rw [← List.mem_singleton.mp hmem] at hc
      exact absurd hc (by decide)
    exact .later (ih (pair_infix_of_notMem hstar hpair))
  | ident isIdent _ ih =>
    have hrest := pair_infix_of_notMem (star_notMem_gap _) hpair
    exact .later (ih (pair_infix_of_notMem (star_notMem_ident isIdent) hrest))
  | literal _ _ readable ih =>
    have hrest := pair_infix_of_notMem (star_notMem_gap _) hpair
    rcases pair_infix_append hrest with htext | hlater | ⟨-, hhead⟩
    · exact .literal htext
    · exact .later (ih hlater)
    · exact absurd hhead (hedge readable)
  | lifetime text joint isName _ ih =>
    rw [chars_lifetime text joint] at hpair
    have htick := pair_infix_of_notMem (star_notMem_gap _) hpair
    have hname := pair_infix_of_notMem (by decide) htick
    exact .later (.later (ih (pair_infix_of_notMem (star_notMem_name isName) hname)))
  | alone _ text alone readable ih =>
    rw [chars_alone text alone] at hpair
    rcases pair_infix_append (pair_infix_of_notMem (star_notMem_gap _) hpair) with
      htext | hlater | ⟨-, hhead⟩
    · exact absurd htext.length_le (by simp)
    · exact .later (ih hlater)
    · exact absurd hhead (hedge readable)
  | joint _ text joint _ readable ih =>
    rw [chars_joint text joint] at hpair
    rcases pair_infix_append (pair_infix_of_notMem (star_notMem_gap _) hpair) with
      htext | hlater | ⟨hstar, hhead⟩
    · exact absurd htext.length_le (by simp)
    · exact .later (ih hlater)
    · -- The slash is the mark that the star is joint to.
      obtain ⟨d, hd⟩ := readable.exists_char
      obtain rfl := List.mem_singleton.mp hstar
      obtain rfl : d = '/' := by simpa [chars, gap, Token.text, hd] using hhead
      exact .marks (String.toList_inj.mp text) joint (String.toList_inj.mp hd)

/-! ### Reading events back -/

/-- Whether events start with a mark. -/
def startsPunct : List Event → Bool
  | .token (.punct _) :: _ => true
  | _ => false

/-- The text written for events is cut into pieces that stand for the same events. A
mark in front is joint to the first piece exactly when the events are glued to it and
start with a mark. -/
def ReadsGlued (file : Option String) (glued : Bool) (events : List Event) : Prop :=
  ∀ position, ∃ pieces, Piece.Cut position (chars glued events) pieces ∧
    (Piece.events file pieces).map bare = events.map bare ∧
    pieces.head?.any Piece.joins = (glued && startsPunct events)

/-- Events are read back whether their first item is glued or not. -/
def Reads (file : Option String) (events : List Event) : Prop :=
  ∀ glued, ReadsGlued file glued events

theorem reads_nil (file : Option String) : Reads file [] :=
  fun glued position => ⟨[], .nil position, rfl, by cases glued <;> rfl⟩

/-- Without glue, a space stands in front of all events but a closing one. -/
theorem chars_false_cases (events : List Event) :
    chars false events = chars true events ∧ startsPunct events = false ∨
      chars false events = ' ' :: chars true events := by
  cases events with
  | nil => exact .inl ⟨rfl, rfl⟩
  | cons event rest =>
    cases event with
    | closing delimiter => exact .inl ⟨rfl, rfl⟩
    | token value => exact .inr rfl
    | opening delimiter span => exact .inr rfl

/-- Events that are read back when glued are read back behind a space. -/
theorem ReadsGlued.reads {file : Option String} {events : List Event}
    (h : ReadsGlued file true events)
    (hblank : Terminal.Stops Terminal.isBlank (chars true events)) : Reads file events := by
  intro glued position
  cases glued with
  | true => exact h position
  | false =>
    rcases chars_false_cases events with ⟨hsame, hpunct⟩ | hspace
    · obtain ⟨pieces, hcut, hevents, hjoins⟩ := h position
      rw [hpunct] at hjoins
      exact ⟨pieces, hsame ▸ hcut, hevents, hjoins⟩
    · obtain ⟨pieces, hcut, hevents, -⟩ := h (position.after [' '])
      rw [hspace]
      refine ⟨_, .cons (Terminal.first?_space hblank) hcut, ?_, rfl⟩
      exact hevents

/-- One more piece in front of events that are read back. -/
theorem Reads.cons {file : Option String} {terminal : Terminal} {lexeme : List Char}
    {rest : List Event} (hrest : Reads file rest) (front : List Event) (glued : Bool)
    (hchars : chars true (front ++ rest) = lexeme ++ chars glued rest)
    (hfirst : Terminal.first? (lexeme ++ chars glued rest) = some (terminal, lexeme))
    (hblank : terminal ≠ .blank)
    (hjoins : (decide (terminal = .punct) || decide (terminal = .lifetime)) =
      startsPunct (front ++ rest))
    (hflat : ∀ (position : Position) (next : Option Piece),
      next.any Piece.joins = (glued && startsPunct rest) →
        (Piece.flat file ⟨terminal, lexeme, position, position.after lexeme⟩ next).map bare =
          front.map bare) :
    Reads file (front ++ rest) := by
  refine ReadsGlued.reads (fun position => ?_) ?_
  · obtain ⟨pieces, hcut, hevents, hnext⟩ := hrest glued (position.after lexeme)
    rw [hchars]
    refine ⟨_, .cons hfirst hcut, ?_, ?_⟩
    · rw [Piece.events, List.map_append, List.map_append, hflat position _ hnext, hevents]
    · simpa [Piece.joins] using hjoins
  · rw [hchars]
    exact Terminal.stops_isBlank_of_first? hfirst hblank

/-- A slash that stands in front of an edge opens no comment. -/
theorem comment_eq_none_of_atEdge {text : List Char} (c : Char) (h : Terminal.AtEdge text) :
    Terminal.blockComment? (c :: text) = none ∧ Terminal.lineComment? (c :: text) = none := by
  have hstar : Terminal.Stops (fun c => decide (c = '*')) text := h.stops (by decide)
  have hslash : Terminal.Stops (fun c => decide (c = '/')) text := h.stops (by decide)
  cases text with
  | nil => simp [Terminal.blockComment?, Terminal.lineComment?]
  | cons d rest =>
    rw [Terminal.stops_cons, decide_eq_false_iff_not] at hstar hslash
    simp [Terminal.blockComment?, Terminal.lineComment?, hstar, hslash]

/-- A mark glued to another one opens no comment if the events do not. -/
theorem comment_eq_none_of_joint {next : Punct} {c : Char} {rest : List Event}
    (readable : Readable (.token (.punct next) :: rest))
    (comment : c = '/' → ¬ OpensComment next rest) :
    Terminal.blockComment? (c :: chars true (.token (.punct next) :: rest)) = none ∧
      Terminal.lineComment? (c :: chars true (.token (.punct next) :: rest)) = none := by
  by_cases hc : c = '/'
  · obtain ⟨d, hd⟩ := readable.exists_char
    have hopens := comment hc
    have hslash : d ≠ '/' := by
      rintro rfl
      exact hopens (.inl (String.toList_inj.mp hd))
    -- The comment could only end in the text of the events behind the star.
    have hblock (hstar : d = '*') (glued : Bool) :
        Terminal.through? '*' '/' (chars glued rest) = none := by
      subst hstar
      refine Terminal.through?_eq_none_iff.mpr fun hpair => hopens (.inr ⟨?_, ?_⟩)
      · exact String.toList_inj.mp hd
      · exact readable.tail.closes hpair
    subst hc
    by_cases hstar : d = '*'
    · subst hstar
      simp [chars, gap, Token.text, hd, Terminal.blockComment?, Terminal.lineComment?, hblock rfl]
    · simp [chars, gap, Token.text, hd, Terminal.blockComment?, Terminal.lineComment?, hstar,
        hslash]
  · simp [Terminal.blockComment?, Terminal.lineComment?, hc]

/-- Readable events are read back from their text. -/
theorem Readable.reads {events : List Event} (h : Readable events) (file : Option String) :
    Reads file events := by
  induction h with
  | nil => exact reads_nil file
  | @opening delimiter span rest visible readable ih =>
    exact ih.cons [.opening delimiter span] true rfl (Terminal.first?_opener visible _)
      (by simp) rfl (fun position next _ => rfl)
  | @closing delimiter rest visible readable ih =>
    exact ih.cons [.closing delimiter] false rfl (Terminal.first?_closer visible _)
      (by simp) rfl (fun position next _ => rfl)
  | @ident value rest isIdent readable ih =>
    have hfirst := Terminal.first?_ident isIdent readable.atEdge
    refine ih.cons [.token (.ident value)] false rfl hfirst (by simp) rfl ?_
    intro position next _
    simp [Piece.flat, Piece.tokens, bare, Token.bare, Token.text]
  | @literal value terminal source rest isLiteral lexeme readable ih =>
    have hfirst := Terminal.first?_literal isLiteral lexeme readable.atEdge
    have hflat (position stop : Position) (next : Option Piece) :
        (Piece.flat file ⟨terminal, value.text.toList, position, stop⟩ next).map bare =
          [Event.token (.literal value)].map bare := by
      cases terminal with
      | number | rawString | string | character =>
        simp [Piece.flat, Piece.tokens, bare, Token.bare]
      | _ => cases isLiteral
    have hkind : terminal ≠ .blank ∧ terminal ≠ .punct ∧ terminal ≠ .lifetime := by
      refine ⟨?_, ?_, ?_⟩
      all_goals
        rintro rfl
        cases isLiteral
    refine ih.cons [.token (.literal value)] false rfl hfirst hkind.1 ?_ fun position next _ => ?_
    · simp [hkind.2, startsPunct]
    · exact hflat _ _ _
  | @lifetime tick name rest text joint isName readable ih =>
    have hchars : chars true ([.token (.punct tick), .token (.ident name)] ++ rest) =
        ('\x27' :: name.text.toList) ++ chars false rest := chars_lifetime text joint
    have hfirst := Terminal.first?_lifetime isName readable.atEdge
    refine ih.cons _ false hchars hfirst (by simp) rfl ?_
    intro position next _
    simp [Piece.flat, Piece.tokens, bare, Token.bare, text, joint]
  | @alone mark c rest isMark text alone readable ih =>
    -- An edge follows, so the mark opens no comment and the next piece does not join it.
    obtain ⟨hblock, hline⟩ := comment_eq_none_of_atEdge c readable.atEdge
    have hfirst := Terminal.first?_mark isMark hblock hline
    refine ih.cons [.token (.punct mark)] false (chars_alone text alone) hfirst (by simp) rfl
      fun position next hnext => ?_
    simp [Piece.flat, Piece.tokens, bare, Token.bare, hnext, alone, ← text]
  | @joint mark next c rest isMark text joint comment readable ih =>
    -- The next piece is that of the mark behind, which is what makes this one joint.
    obtain ⟨hblock, hline⟩ := comment_eq_none_of_joint readable comment
    have hfirst := Terminal.first?_mark isMark hblock hline
    refine ih.cons [.token (.punct mark)] true (chars_joint text joint) hfirst (by simp) rfl
      fun position after hnext => ?_
    simp [Piece.flat, Piece.tokens, bare, Token.bare, hnext, startsPunct, joint, ← text]

end Event

/-- A level with readable events is read back from its text, up to places. -/
theorem Forest.exists_lex_render {trees : Forest} (h : Event.Readable (Forest.events trees))
    (file : Option String) :
    ∃ found, Forest.lex file trees.render = .ok found ∧ found.bare = trees.bare := by
  obtain ⟨pieces, hcut, hevents, -⟩ := h.reads file true {}
  rw [← Forest.toList_render] at hcut
  rw [← Forest.events_bare] at hevents
  obtain ⟨found, hfound, hbare⟩ := Forest.exists_of_bare_events trees.bare hevents
  exact ⟨found, Forest.lex_eq_ok_iff.mpr ⟨pieces, hcut, hfound.symm⟩, hbare⟩

end Qualify
