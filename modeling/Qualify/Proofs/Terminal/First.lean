import Qualify.Proofs.Terminal.Number

/-!
# The first terminal that matches

`first?_eq_some_iff` says what a first match is: a terminal of the order that matches
where none before it does. Which terminals come into question is mostly decided by
the first character of a text (`starts`). From that and from what may follow a
lexeme come the first matches of all that the writer puts down: a space, a
delimiter, a mark that opens no comment, and an identifier, a lifetime or a literal
in front of an edge.

## Main definitions

- `starts` — the characters a lexeme of a terminal can start with
- `isLiteral` — the terminals that literals are read by
-/

namespace Qualify

namespace Terminal

/-! ### A lexeme is taken off the front -/

/-- A recogniser that takes a nonempty text off the front. -/
def Prefixing (recognise : List Char → Option (List Char)) : Prop :=
  ∀ {text lexeme : List Char}, recognise text = some lexeme →
    lexeme ≠ [] ∧ ∃ rest, text = lexeme ++ rest

theorem through?_prefixing (a b : Char) : Prefixing (through? a b) := by
  intro text lexeme h
  fun_induction through? a b text generalizing lexeme with
  | case1 c d rest hend =>
    cases h
    exact ⟨by simp, rest, rfl⟩
  | case2 c d rest hend ih =>
    obtain ⟨body, hbody, rfl⟩ := Option.map_eq_some_iff.mp h
    obtain ⟨-, after, hafter⟩ := ih hbody
    exact ⟨by simp, after, by rw [hafter]; rfl⟩
  | case3 text hshort => cases h

theorem blockComment?_prefixing : Prefixing blockComment? := by
  intro text lexeme h
  unfold blockComment? at h
  split at h
  · obtain ⟨body, hbody, rfl⟩ := Option.map_eq_some_iff.mp h
    obtain ⟨-, after, rfl⟩ := through?_prefixing _ _ hbody
    exact ⟨by simp, after, rfl⟩
  · cases h

theorem lineComment?_prefixing : Prefixing lineComment? := by
  intro text lexeme h
  unfold lineComment? at h
  split at h
  · next rest =>
    cases h
    refine ⟨by simp, rest.dropWhile (· ≠ '\n'), ?_⟩
    simp only [List.cons_append, List.takeWhile_append_dropWhile]
  · cases h

theorem rawString?_prefixing : Prefixing rawString? := by
  intro text lexeme h
  unfold rawString? at h
  split at h
  · obtain ⟨body, hbody, rfl⟩ := Option.map_eq_some_iff.mp h
    obtain ⟨-, after, rfl⟩ := through?_prefixing _ _ hbody
    exact ⟨by simp, after, rfl⟩
  · next rest =>
    split at h
    · cases h
    · next quote after hdrop =>
      cases h
      refine ⟨by simp, after, ?_⟩
      have hrest := List.takeWhile_append_dropWhile (p := fun c => decide (c ≠ '\x22')) (l := rest)
      rw [hdrop] at hrest
      simp only [List.cons_append, List.append_assoc, List.nil_append, hrest]
  · cases h

theorem stringBody?_prefixing : Prefixing stringBody? := by
  intro text lexeme h
  fun_induction stringBody? text generalizing lexeme with
  | case1 => cases h
  | case2 rest =>
    cases h
    exact ⟨by simp, rest, rfl⟩
  | case3 c rest ih =>
    obtain ⟨body, hbody, rfl⟩ := Option.map_eq_some_iff.mp h
    obtain ⟨-, after, rfl⟩ := ih hbody
    exact ⟨by simp, after, rfl⟩
  | case4 => cases h
  | case5 c rest hquote hescape hslash ih =>
    obtain ⟨body, hbody, rfl⟩ := Option.map_eq_some_iff.mp h
    obtain ⟨-, after, rfl⟩ := ih hbody
    exact ⟨by simp, after, rfl⟩

theorem string?_prefixing : Prefixing string? := by
  intro text lexeme h
  unfold string? at h
  split at h
  · obtain ⟨body, hbody, rfl⟩ := Option.map_eq_some_iff.mp h
    obtain ⟨-, after, rfl⟩ := stringBody?_prefixing hbody
    exact ⟨by simp, after, rfl⟩
  · cases h

theorem characterBody?_prefixing : Prefixing characterBody? := by
  intro text lexeme h
  unfold characterBody? at h
  split at h
  · split at h
    · cases h
      exact ⟨by simp, _, rfl⟩
    · cases h
  · next rest =>
    split at h
    · next after hdrop =>
      dsimp only at h
      split at h
      · cases h
        refine ⟨by simp, after, ?_⟩
        have hrest := List.takeWhile_append_dropWhile (p := isHex) (l := rest)
        rw [hdrop] at hrest
        simp only [List.cons_append, List.append_assoc, List.nil_append, hrest]
      · cases h
    · cases h
  · split at h
    · cases h
    · cases h
      exact ⟨by simp, _, rfl⟩
  · split at h
    · cases h
    · cases h
      exact ⟨by simp, _, rfl⟩
  · cases h

theorem character?_prefixing : Prefixing character? := by
  intro text lexeme h
  unfold character? at h
  split at h
  · split at h
    · cases h
    · next body hbody =>
      split at h
      · next after hdrop =>
        cases h
        obtain ⟨-, rest, rfl⟩ := characterBody?_prefixing hbody
        rw [List.drop_left] at hdrop
        exact ⟨by simp, after, by simp [hdrop]⟩
      · cases h
  · cases h

theorem byteMarked?_prefixing {recognise : List Char → Option (List Char)}
    (h : Prefixing recognise) : Prefixing (byteMarked? recognise) := by
  intro text lexeme hlexeme
  unfold byteMarked? at hlexeme
  split at hlexeme
  · obtain ⟨body, hbody, rfl⟩ := Option.map_eq_some_iff.mp hlexeme
    obtain ⟨-, after, rfl⟩ := h hbody
    exact ⟨by simp, after, rfl⟩
  · exact h hlexeme

theorem fraction_append_drop (text : List Char) :
    fraction text ++ text.drop (fraction text).length = text := by
  rcases fraction_cases text with hnil | ⟨c, rest, -, htext, hfraction⟩
  · rw [hnil]
    rfl
  · rw [hfraction, htext, List.length_cons, List.length_cons, List.drop_succ_cons,
      List.drop_succ_cons, drop_length_takeWhile, List.cons_append, List.cons_append,
      List.takeWhile_append_dropWhile]

theorem sign_append_drop (text : List Char) : sign text ++ text.drop (sign text).length = text := by
  rcases sign_cases text with ⟨hnil, -⟩ | ⟨c, rest, -, htext, hsign⟩
  · rw [hnil]
    rfl
  · rw [hsign, htext]
    rfl

theorem exponent_append_drop (text : List Char) :
    exponent text ++ text.drop (exponent text).length = text := by
  rcases exponent_cases text with hnil | ⟨c, rest, -, htext, -, hexponent⟩
  · rw [hnil]
    rfl
  · rw [hexponent, htext, List.length_cons, List.drop_succ_cons, List.length_append,
      ← List.drop_drop, exponentDigits, drop_length_takeWhile, List.cons_append,
      List.append_assoc, List.takeWhile_append_dropWhile, sign_append_drop]

theorem number?_prefixing : Prefixing number? := by
  intro text lexeme h
  unfold number? at h
  split at h
  · next c rest =>
    split at h
    · cases h
      refine ⟨by simp, ?_⟩
      generalize hafter : rest.dropWhile isDigits = after
      generalize hscaled : after.drop (fraction after).length = scaled
      have hrest := List.takeWhile_append_dropWhile (p := isDigits) (l := rest)
      have hfraction := fraction_append_drop after
      have hexponent := exponent_append_drop scaled
      have hsuffix := List.takeWhile_append_dropWhile (p := isName)
        (l := scaled.drop (exponent scaled).length)
      refine ⟨(scaled.drop (exponent scaled).length).dropWhile isName, ?_⟩
      rw [hafter] at hrest
      rw [hscaled] at hfraction
      simp only [List.cons_append, List.append_assoc, hsuffix, hexponent, hfraction, hrest]
    · cases h
  · cases h

theorem name?_prefixing : Prefixing name? := by
  intro text lexeme h
  unfold name? at h
  split at h
  · next c rest =>
    split at h
    · cases h
      refine ⟨by simp, rest.dropWhile isName, ?_⟩
      rw [List.cons_append, List.takeWhile_append_dropWhile]
    · cases h
  · cases h

theorem lifetime?_prefixing : Prefixing lifetime? := by
  intro text lexeme h
  unfold lifetime? at h
  split at h
  · split at h
    · cases h
    · next name hname =>
      obtain ⟨hne, rest, rfl⟩ := name?_prefixing hname
      split at h
      · split at h
        · cases h
        · cases h
          refine ⟨by simp, name.getLast hne :: rest, ?_⟩
          rw [List.cons_append, List.append_cons, List.dropLast_concat_getLast]
      · cases h
        exact ⟨by simp, rest, rfl⟩
  · cases h

theorem ident?_prefixing : Prefixing ident? := by
  intro text lexeme h
  unfold ident? at h
  split at h
  · split at h
    · next name hname =>
      cases h
      obtain ⟨-, after, rfl⟩ := name?_prefixing hname
      exact ⟨by simp, after, rfl⟩
    · cases h
      exact ⟨by simp, _, rfl⟩
  · exact name?_prefixing h

theorem blank?_prefixing : Prefixing blank? := by
  intro text lexeme h
  rw [blank?] at h
  split at h
  · cases h
  · next hne =>
    cases h
    exact ⟨hne, text.dropWhile isBlank, List.takeWhile_append_dropWhile.symm⟩

theorem mark?_prefixing : Prefixing mark? := by
  intro text lexeme h
  unfold mark? at h
  split at h
  · split at h
    · cases h
      exact ⟨by simp, _, rfl⟩
    · cases h
  · cases h

theorem exactly?_prefixing (lexeme : List Char) : Prefixing (exactly? lexeme) := by
  intro text found h
  rw [exactly?] at h
  split at h
  · next hexactly =>
    cases h
    simp only [Bool.and_eq_true, decide_eq_true_eq] at hexactly
    obtain ⟨rest, hrest⟩ := List.isPrefixOf_iff_prefix.mp hexactly.2
    exact ⟨hexactly.1, rest, hrest.symm⟩
  · cases h

/-- Every terminal takes a nonempty text off the front. -/
theorem lexeme?_prefixing (terminal : Terminal) : Prefixing terminal.lexeme? := by
  cases terminal with
  | blockComment => exact blockComment?_prefixing
  | lineComment => exact lineComment?_prefixing
  | number => exact number?_prefixing
  | rawString => exact byteMarked?_prefixing rawString?_prefixing
  | string => exact byteMarked?_prefixing string?_prefixing
  | character => exact byteMarked?_prefixing character?_prefixing
  | lifetime => exact lifetime?_prefixing
  | ident => exact ident?_prefixing
  | blank => exact blank?_prefixing
  | punct => exact mark?_prefixing
  | opener delimiter => exact exactly?_prefixing _
  | closer delimiter => exact exactly?_prefixing _

/-! ### The first match -/

/-- The terminals that are tried before another one. -/
def earlier (terminal : Terminal) : List Terminal := order.takeWhile (· ≠ terminal)

/-- The first match is that of a terminal before which no terminal matches. -/
theorem first?_eq_some_iff {terminal : Terminal} {text lexeme : List Char} :
    first? text = some (terminal, lexeme) ↔
      terminal ∈ order ∧ terminal.lexeme? text = some lexeme ∧
        ∀ other ∈ terminal.earlier, other.lexeme? text = none := by
  constructor
  · intro h
    obtain ⟨before, found, after, horder, hfound, hbefore⟩ := List.findSome?_eq_some_iff.mp h
    obtain ⟨matched, hmatched, hpair⟩ := Option.map_eq_some_iff.mp hfound
    cases hpair
    refine ⟨by simp [horder], hmatched, fun other hother => ?_⟩
    have hmem : other ∈ before := by
      rw [earlier, horder, List.takeWhile_append] at hother
      split at hother
      · simpa using hother
      · exact List.takeWhile_subset _ hother
    exact Option.map_eq_none_iff.mp (hbefore other hmem)
  · rintro ⟨hmem, hlexeme, hearlier⟩
    obtain ⟨before, after, horder, hbefore⟩ := List.eq_append_cons_of_mem hmem
    have hbeforeAll : ∀ other ∈ before, decide (other ≠ terminal) = true := by
      intro other hother
      simpa using fun heq : other = terminal => hbefore (heq ▸ hother)
    have hsame : terminal.earlier = before := by
      rw [earlier, horder, List.takeWhile_append_of_pos hbeforeAll]
      simp
    refine List.findSome?_eq_some_iff.mpr ⟨before, terminal, after, horder, ?_, ?_⟩
    · rw [hlexeme, Option.map_some]
    · intro other hother
      rw [hearlier other (hsame ▸ hother), Option.map_none]

/-- The characters that a lexeme of a terminal can start with. -/
def starts : Terminal → Char → Bool
  | blockComment, c | lineComment, c => c = '/'
  | number, c => c.isDigit
  | rawString, c => c = 'b' || c = 'r'
  | string, c => c = 'b' || c = '\x22'
  | character, c => c = 'b' || c = '\x27'
  | lifetime, c => c = '\x27'
  | ident, c => isNameStart c
  | blank, c => isBlank c
  | punct, c => marks.contains c
  | opener delimiter, c => delimiter.opener.toList.head? = some c
  | closer delimiter, c => delimiter.closer.toList.head? = some c

theorem byteMarked?_eq_none {recognise : List Char → Option (List Char)} {c : Char}
    {rest : List Char} (hc : c ≠ 'b') (h : recognise (c :: rest) = none) :
    byteMarked? recognise (c :: rest) = none := by
  rw [byteMarked?]
  · exact h
  · exact fun after => by simp [hc]

theorem exactly?_eq_none {lexeme : List Char} {c : Char} {rest : List Char}
    (h : lexeme.head? ≠ some c) : exactly? lexeme (c :: rest) = none := by
  rw [exactly?, if_neg]
  cases lexeme with
  | nil => simp
  | cons d tail =>
    have hne : d ≠ c := by simpa using h
    simp [hne]

/-- No terminal matches a text whose first character it cannot start with. -/
theorem lexeme?_eq_none_of_starts {terminal : Terminal} {c : Char} {rest : List Char}
    (h : terminal.starts c = false) : terminal.lexeme? (c :: rest) = none := by
  cases terminal with
  | blockComment => simp_all [starts, lexeme?, blockComment?]
  | lineComment => simp_all [starts, lexeme?, lineComment?]
  | number => simp_all [starts, lexeme?, number?]
  | rawString =>
    simp only [starts, Bool.or_eq_false_iff, decide_eq_false_iff_not] at h
    exact byteMarked?_eq_none h.1 (by simp [rawString?, h.2])
  | string =>
    simp only [starts, Bool.or_eq_false_iff, decide_eq_false_iff_not] at h
    exact byteMarked?_eq_none h.1 (by simp [string?, h.2])
  | character =>
    simp only [starts, Bool.or_eq_false_iff, decide_eq_false_iff_not] at h
    exact byteMarked?_eq_none h.1 (by simp [character?, h.2])
  | lifetime => simp_all [starts, lexeme?, lifetime?]
  | ident =>
    have hr : c ≠ 'r' := by
      rintro rfl
      exact absurd h (by decide)
    simp only [starts] at h
    simp [lexeme?, ident?, name?, hr, h]
  | blank => simp_all [starts, lexeme?, blank?]
  | punct => simp_all [starts, lexeme?, mark?]
  | opener delimiter =>
    simp only [starts, decide_eq_false_iff_not] at h
    exact exactly?_eq_none h
  | closer delimiter =>
    simp only [starts, decide_eq_false_iff_not] at h
    exact exactly?_eq_none h

/-- A match is the first one if every earlier terminal that could start with the same
character fails. -/
theorem first?_of_starts {terminal : Terminal} {c : Char} {rest lexeme : List Char}
    (horder : terminal ∈ order) (h : terminal.lexeme? (c :: rest) = some lexeme)
    (hearlier : ∀ other ∈ terminal.earlier, other.starts c = true →
      other.lexeme? (c :: rest) = none) :
    first? (c :: rest) = some (terminal, lexeme) := by
  refine first?_eq_some_iff.mpr ⟨horder, h, fun other hother => ?_⟩
  cases hstarts : other.starts c with
  | true => exact hearlier other hother hstarts
  | false => exact lexeme?_eq_none_of_starts hstarts

/-! ### Blanks, delimiters and marks -/

/-- A match is the first one if no earlier terminal starts with the same character. -/
theorem first?_of_starts_eq_false {terminal : Terminal} {c : Char} {rest lexeme : List Char}
    (horder : terminal ∈ order) (h : terminal.lexeme? (c :: rest) = some lexeme)
    (hearlier : ∀ other ∈ terminal.earlier, other.starts c = false) :
    first? (c :: rest) = some (terminal, lexeme) :=
  first?_of_starts horder h fun other hother hstarts =>
    absurd (hearlier other hother) (by simp [hstarts])

/-- One space in front of anything but blank space is the whole blank. -/
theorem first?_space {rest : List Char} (h : Stops isBlank rest) :
    first? (' ' :: rest) = some (blank, [' ']) := by
  have hspace : ∀ c ∈ [' '], isBlank c = true := List.forall_mem_singleton.mpr rfl
  have hrun : (' ' :: rest).takeWhile isBlank = [' '] := takeWhile_append_stops hspace h
  refine first?_of_starts_eq_false (by decide) ?_ (by decide)
  rw [lexeme?, blank?, hrun]

/-- Only a blank starts with a blank character. -/
theorem stops_isBlank_of_first? {terminal : Terminal} {text lexeme : List Char}
    (h : first? text = some (terminal, lexeme)) (hblank : terminal ≠ blank) :
    Stops isBlank text := by
  obtain ⟨horder, hlexeme, -⟩ := first?_eq_some_iff.mp h
  have hall : [' ', '\t', '\x0c', '\r', '\n'].all (fun c =>
      order.all fun other => other = blank || !other.starts c) = true := by
    decide
  cases text with
  | nil => exact stops_nil _
  | cons c rest =>
    rw [stops_cons, Bool.eq_false_iff]
    intro hc
    have hmem : c ∈ [' ', '\t', '\x0c', '\r', '\n'] := by
      simpa [isBlank, or_assoc] using hc
    have hstarts := List.all_eq_true.mp (List.all_eq_true.mp hall c hmem) terminal horder
    simp only [hblank, decide_false, Bool.false_or, Bool.not_eq_true'] at hstarts
    rw [lexeme?_eq_none_of_starts hstarts] at hlexeme
    cases hlexeme

theorem first?_opener {delimiter : Delimiter} (h : delimiter ≠ .invisible) (rest : List Char) :
    first? (delimiter.opener.toList ++ rest) =
      some (opener delimiter, delimiter.opener.toList) := by
  cases delimiter with
  | invisible => exact absurd rfl h
  | paren => exact first?_of_starts_eq_false (by decide) rfl (by decide)
  | brace => exact first?_of_starts_eq_false (by decide) rfl (by decide)
  | bracket => exact first?_of_starts_eq_false (by decide) rfl (by decide)

theorem first?_closer {delimiter : Delimiter} (h : delimiter ≠ .invisible) (rest : List Char) :
    first? (delimiter.closer.toList ++ rest) =
      some (closer delimiter, delimiter.closer.toList) := by
  cases delimiter with
  | invisible => exact absurd rfl h
  | paren => exact first?_of_starts_eq_false (by decide) rfl (by decide)
  | brace => exact first?_of_starts_eq_false (by decide) rfl (by decide)
  | bracket => exact first?_of_starts_eq_false (by decide) rfl (by decide)

/-- A mark is read as such unless it opens a comment. -/
theorem first?_mark {c : Char} {rest : List Char} (hc : c ∈ marks)
    (hblock : blockComment? (c :: rest) = none) (hline : lineComment? (c :: rest) = none) :
    first? (c :: rest) = some (punct, [c]) := by
  have hmark : mark? (c :: rest) = some [c] := by simp [mark?, hc]
  -- The only earlier terminals that start with a mark are the comments.
  have hall : marks.all (fun d => punct.earlier.all fun other =>
      !other.starts d || other = blockComment || other = lineComment) = true := by
    decide
  refine first?_of_starts (by decide) hmark fun other hother hstarts => ?_
  have hcomment := List.all_eq_true.mp (List.all_eq_true.mp hall c hc) other hother
  simp only [hstarts, Bool.not_true, Bool.false_or, Bool.or_eq_true, decide_eq_true_eq] at hcomment
  rcases hcomment with rfl | rfl
  · exact hblock
  · exact hline

/-! ### Names and lifetimes -/

theorem not_isDigit_of_isNameStart {c : Char} (h : isNameStart c = true) : c.isDigit = false := by
  rw [Bool.eq_false_iff]
  intro hdigit
  have hnine : c.val.toNat ≤ '9'.val.toNat := (Char.isDigit_iff_toNat.mp hdigit).2
  have hstart : (c.isUpper || c.isLower || decide (c = '_')) = true := h
  simp only [Bool.or_eq_true, decide_eq_true_eq] at hstart
  rcases hstart with (hupper | hlower) | rfl
  · have hletter : 'A'.val ≤ c.val := (of_decide_eq_true hupper).1
    have hgap : '9'.val.toNat < 'A'.val.toNat := by decide
    rw [UInt32.le_iff_toNat_le] at hletter
    omega
  · have hletter : 'a'.val ≤ c.val := of_decide_eq_true (Bool.and_eq_true_iff.mp hlower).1
    have hgap : '9'.val.toNat < 'a'.val.toNat := by decide
    rw [UInt32.le_iff_toNat_le] at hletter
    omega
  · exact absurd hdigit (by decide)

/-- A lifetime in front of an edge is read as one. -/
theorem first?_lifetime {name tail : List Char} (h : IsName name) (ht : AtEdge tail) :
    first? ('\x27' :: (name ++ tail)) = some (lifetime, '\x27' :: name) := by
  have hearlier : ∀ other ∈ lifetime.earlier, other.starts '\x27' = true → other = character := by
    decide
  refine first?_of_starts (by decide) (lifetime?_append h ht) fun other hother hstarts => ?_
  obtain rfl := hearlier other hother hstarts
  exact character?_lifetime h ht

/-- A name in front of an edge goes on with no character that is neither. -/
theorem stops_name_append {run tail : List Char} (hrun : ∀ c ∈ run, isName c = true)
    (ht : AtEdge tail) {d : Char} (hd : isName d = false ∧ d ∉ edges) :
    Stops (fun c => decide (c = d)) (run ++ tail) := by
  refine stops_append hrun (fun c hc => by simpa using ne_of_isName hc hd.1) ?_
  intro c hc
  have hedge := ht c hc
  have hne : c ≠ d := fun heq => hd.2 (heq ▸ hedge)
  simpa using hne

theorem rawString?_eq_none {c : Char} {rest : List Char}
    (hpound : Stops (fun c => decide (c = '#')) rest)
    (hquote : Stops (fun c => decide (c = '\x22')) rest) : rawString? (c :: rest) = none := by
  cases rest with
  | nil => simp [rawString?]
  | cons d after =>
    rw [stops_cons, decide_eq_false_iff_not] at hpound hquote
    simp [rawString?, hpound, hquote]

theorem string?_eq_none {text : List Char} (h : Stops (fun c => decide (c = '\x22')) text) :
    string? text = none := by
  cases text with
  | nil => rfl
  | cons c rest =>
    rw [stops_cons, decide_eq_false_iff_not] at h
    simp [string?, h]

theorem character?_eq_none {text : List Char} (h : Stops (fun c => decide (c = '\x27')) text) :
    character? text = none := by
  cases text with
  | nil => rfl
  | cons c rest =>
    rw [stops_cons, decide_eq_false_iff_not] at h
    simp [character?, h]

/-- A name in front of an edge starts no raw string. -/
theorem rawString_lexeme?_name {name tail : List Char} (h : IsName name) (ht : AtEdge tail) :
    rawString.lexeme? (name ++ tail) = none := by
  cases name with
  | nil => exact h.elim
  | cons c rest =>
    have hnone (run : List Char) (d : Char) (hrun : ∀ e ∈ run, isName e = true) :
        rawString? (d :: (run ++ tail)) = none :=
      rawString?_eq_none (stops_name_append hrun ht (by decide))
        (stops_name_append hrun ht (by decide))
    by_cases hb : c = 'b'
    · subst hb
      -- Behind the byte marker stands the rest of the name, or the edge.
      simp only [lexeme?, List.cons_append, byteMarked?, Option.map_eq_none_iff]
      cases rest with
      | nil =>
        have hr : Stops (fun c => decide (c = 'r')) tail := ht.stops (by decide)
        cases tail with
        | nil => rfl
        | cons d after =>
          rw [stops_cons, decide_eq_false_iff_not] at hr
          simp [rawString?, hr]
      | cons d after => exact hnone after d fun e he => h.2 e (List.mem_cons_of_mem _ he)
    · exact byteMarked?_eq_none hb (hnone rest c h.2)

/-- A name in front of an edge is read as one. -/
theorem first?_name {name tail : List Char} (h : IsName name) (ht : AtEdge tail) :
    first? (name ++ tail) = some (ident, name) := by
  have hident := ident?_append (.inl h) ht
  have hraw := rawString_lexeme?_name h ht
  cases name with
  | nil => exact h.elim
  | cons c rest =>
    rw [List.cons_append] at hident hraw ⊢
    have hname := isName_of_isNameStart h.1
    have hquote := string?_eq_none (stops_name_append h.2 ht (by decide))
    have htick := character?_eq_none (stops_name_append h.2 ht (by decide))
    refine first?_of_starts (by decide) hident fun other hother hstarts => ?_
    have hother : other ∈ [blockComment, lineComment, number, rawString, string, character,
      lifetime] := hother
    simp only [List.mem_cons, List.not_mem_nil, or_false] at hother
    rcases hother with rfl | rfl | rfl | rfl | rfl | rfl | rfl
    · exact absurd (by simpa [starts] using hstarts) (ne_of_isName hname (d := '/') (by decide))
    · exact absurd (by simpa [starts] using hstarts) (ne_of_isName hname (d := '/') (by decide))
    · rw [starts, not_isDigit_of_isNameStart h.1] at hstarts
      cases hstarts
    · exact hraw
    · have hc : c ≠ '\x22' := ne_of_isName hname (by decide)
      obtain rfl : c = 'b' := by simpa [starts, hc] using hstarts
      simp only [lexeme?, byteMarked?, hquote, Option.map_none]
    · have hc : c ≠ '\x27' := ne_of_isName hname (by decide)
      obtain rfl : c = 'b' := by simpa [starts, hc] using hstarts
      simp only [lexeme?, byteMarked?, htick, Option.map_none]
    · exact absurd (by simpa [starts] using hstarts) (ne_of_isName hname (d := '\x27') (by decide))

/-- An identifier in front of an edge is read as one. -/
theorem first?_ident {lexeme tail : List Char} (h : IsIdent lexeme) (ht : AtEdge tail) :
    first? (lexeme ++ tail) = some (ident, lexeme) := by
  have hident := ident?_append h ht
  rcases h with h | ⟨name, h, rfl⟩
  · exact first?_name h ht
  · have hearlier : ∀ other ∈ ident.earlier, other.starts 'r' = true → other = rawString := by
      decide
    refine first?_of_starts (by decide) hident fun other hother hstarts => ?_
    obtain rfl := hearlier other hother hstarts
    -- What follows the pound is a name, not a quote.
    cases name with
    | nil => exact h.elim
    | cons c rest =>
      have hc : c ≠ '\x22' := ne_of_isName (isName_of_isNameStart h.1) (by decide)
      simp [lexeme?, byteMarked?, rawString?, hc]

/-! ### Literals -/

/-- The terminals that literals are read by. -/
def isLiteral : Terminal → Bool
  | number | rawString | string | character => true
  | _ => false

/-- A literal keeps its match in front of an edge. -/
theorem lexeme?_literal {terminal : Terminal} {text lexeme tail : List Char}
    (hliteral : terminal.isLiteral = true) (h : terminal.lexeme? text = some lexeme)
    (ht : AtEdge tail) : terminal.lexeme? (lexeme ++ tail) = some lexeme := by
  cases terminal with
  | number => exact number?_append h ht
  | rawString =>
    exact byteMarked?_selfDelimiting rawString?_selfDelimiting (by decide) head?_rawString? tail h
  | string =>
    exact byteMarked?_selfDelimiting string?_selfDelimiting (by decide) head?_string? tail h
  | character =>
    exact byteMarked?_selfDelimiting character?_selfDelimiting (by decide) head?_character? tail h
  | _ => cases hliteral

/-- What a byte-marked recogniser takes starts with its mark, or with `b` and its
mark. -/
theorem byteMarked?_cases {recognise : List Char → Option (List Char)} {mark : Char}
    (hhead : ∀ {text lexeme}, recognise text = some lexeme → lexeme.head? = some mark)
    {text lexeme : List Char} (h : byteMarked? recognise text = some lexeme) :
    ∃ rest, lexeme = mark :: rest ∨ lexeme = 'b' :: mark :: rest := by
  unfold byteMarked? at h
  split at h
  · obtain ⟨body, hbody, rfl⟩ := Option.map_eq_some_iff.mp h
    obtain ⟨rest, rfl⟩ := List.head?_eq_some_iff.mp (hhead hbody)
    exact ⟨rest, .inr rfl⟩
  · obtain ⟨rest, rfl⟩ := List.head?_eq_some_iff.mp (hhead h)
    exact ⟨rest, .inl rfl⟩

/-- A literal in front of an edge is read as one. -/
theorem first?_literal {terminal : Terminal} {text lexeme tail : List Char}
    (hliteral : terminal.isLiteral = true) (h : terminal.lexeme? text = some lexeme)
    (ht : AtEdge tail) : first? (lexeme ++ tail) = some (terminal, lexeme) := by
  have hlexeme := lexeme?_literal hliteral h ht
  cases terminal with
  | number =>
    obtain ⟨c, rest, rfl⟩ := List.exists_cons_of_ne_nil (lexeme?_prefixing _ h).1
    have hdigit : c.isDigit = true := by
      cases hc : c.isDigit with
      | true => rfl
      | false => simp [lexeme?, number?, hc] at hlexeme
    have hslash : c ≠ '/' := by
      rintro rfl
      exact absurd hdigit (by decide)
    refine first?_of_starts (by decide) hlexeme fun other hother hstarts => ?_
    have hother : other ∈ [blockComment, lineComment] := hother
    simp only [List.mem_cons, List.not_mem_nil, or_false] at hother
    rcases hother with rfl | rfl
    · simp [starts, hslash] at hstarts
    · simp [starts, hslash] at hstarts
  | rawString =>
    obtain ⟨rest, rfl | rfl⟩ := byteMarked?_cases head?_rawString? h
    · exact first?_of_starts_eq_false (by decide) hlexeme (by decide)
    · exact first?_of_starts_eq_false (by decide) hlexeme (by decide)
  | string =>
    obtain ⟨rest, rfl | rfl⟩ := byteMarked?_cases head?_string? h
    · exact first?_of_starts_eq_false (by decide) hlexeme (by decide)
    · have hearlier : ∀ other ∈ string.earlier, other.starts 'b' = true → other = rawString := by
        decide
      refine first?_of_starts (by decide) hlexeme fun other hother hstarts => ?_
      obtain rfl := hearlier other hother hstarts
      simp [lexeme?, byteMarked?, rawString?]
  | character =>
    obtain ⟨rest, rfl | rfl⟩ := byteMarked?_cases head?_character? h
    · exact first?_of_starts_eq_false (by decide) hlexeme (by decide)
    · have hearlier : ∀ other ∈ character.earlier, other.starts 'b' = true →
          other = rawString ∨ other = string := by
        decide
      refine first?_of_starts (by decide) hlexeme fun other hother hstarts => ?_
      rcases hearlier other hother hstarts with rfl | rfl
      · simp [lexeme?, byteMarked?, rawString?]
      · simp [lexeme?, byteMarked?, string?]
  | _ => cases hliteral

end Terminal

end Qualify
