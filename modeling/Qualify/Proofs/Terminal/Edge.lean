import Qualify.Terminal

/-!
# Lexemes in front of another text

A terminal matches by looking at the text behind its lexeme, be it only to see that
the lexeme cannot go on. The lemmas here say which texts may be put behind a lexeme
without changing the match. Strings, raw strings and characters end themselves, so
any text may follow (`SelfDelimiting`). Numbers and names go on as long as they can:
they keep their match in front of an edge, a space or a closing delimiter
(`AtEdge`), which is all that the writer ever puts behind them. Only a comment looks
further ahead, for two characters that stand side by side (`through?_eq_none_iff`).
-/

namespace Qualify

namespace Terminal

/-! ### What stands at the front of a text -/

/-- A text that does not start with a character of the class `p`. -/
def Stops (p : Char → Bool) (text : List Char) : Prop := ∀ c ∈ text.head?, p c = false

/-- The characters that end whatever stands in front of them. -/
def edges : List Char := [' ', ')', ']', '\x7d']

/-- A text that is empty or starts with a space or a closing delimiter. -/
def AtEdge (text : List Char) : Prop := ∀ c ∈ text.head?, c ∈ edges

theorem stops_nil (p : Char → Bool) : Stops p [] := nofun

theorem stops_cons {p : Char → Bool} {c : Char} {rest : List Char} :
    Stops p (c :: rest) ↔ p c = false := by
  simp [Stops]

theorem atEdge_nil : AtEdge [] := nofun

theorem AtEdge.stops {p : Char → Bool} {text : List Char} (h : AtEdge text)
    (hp : edges.all (fun c => !p c) = true) : Stops p text := by
  intro c hc
  have hedge := List.all_eq_true.mp hp c (h c hc)
  simpa using hedge

/-- What is left after taking characters of a class does not start with one. -/
theorem stops_dropWhile (p : Char → Bool) (text : List Char) : Stops p (text.dropWhile p) := by
  intro c hc
  have h := List.head?_dropWhile_not p text
  rw [Option.mem_def.mp hc] at h
  exact h

theorem takeWhile_eq_nil_of_stops {p : Char → Bool} {text : List Char} (h : Stops p text) :
    text.takeWhile p = [] := by
  cases text with
  | nil => rfl
  | cons c rest => rw [List.takeWhile_cons, stops_cons.mp h]; rfl

theorem dropWhile_eq_self_of_stops {p : Char → Bool} {text : List Char} (h : Stops p text) :
    text.dropWhile p = text := by
  cases text with
  | nil => rfl
  | cons c rest => rw [List.dropWhile_cons, stops_cons.mp h]; rfl

theorem stops_of_takeWhile_eq_nil {p : Char → Bool} {text : List Char}
    (h : text.takeWhile p = []) : Stops p text := by
  cases text with
  | nil => exact stops_nil p
  | cons c rest =>
    rw [stops_cons]
    cases hc : p c with
    | false => rfl
    | true =>
      rw [List.takeWhile_cons, if_pos hc] at h
      cases h

theorem forall_mem_takeWhile (p : Char → Bool) (text : List Char) :
    ∀ c ∈ text.takeWhile p, p c = true :=
  List.all_eq_true.mp List.all_takeWhile

/-- A run of characters is taken again in front of a text that does not go on. -/
theorem takeWhile_append_stops {p : Char → Bool} {run tail : List Char}
    (hrun : ∀ c ∈ run, p c = true) (h : Stops p tail) : (run ++ tail).takeWhile p = run := by
  rw [List.takeWhile_append_of_pos hrun, takeWhile_eq_nil_of_stops h, List.append_nil]

theorem dropWhile_append_stops {p : Char → Bool} {run tail : List Char}
    (hrun : ∀ c ∈ run, p c = true) (h : Stops p tail) : (run ++ tail).dropWhile p = tail := by
  rw [List.dropWhile_append_of_pos hrun, dropWhile_eq_self_of_stops h]

theorem stops_append {p q : Char → Bool} {run tail : List Char} (hrun : ∀ c ∈ run, q c = true)
    (hpq : ∀ c, q c = true → p c = false) (h : Stops p tail) : Stops p (run ++ tail) := by
  cases run with
  | nil => exact h
  | cons c rest => exact stops_cons.mpr (hpq c (hrun c List.mem_cons_self))

/-- The start of a run that was taken from a text is the start of that text. -/
theorem stops_takeWhile_append {p q : Char → Bool} {text tail : List Char} (ht : Stops p text)
    (h : Stops p tail) : Stops p (text.takeWhile q ++ tail) := by
  cases text with
  | nil => exact h
  | cons c rest =>
    rw [List.takeWhile_cons]
    split
    · exact stops_cons.mpr (stops_cons.mp ht)
    · exact h

/-! ### Two characters side by side -/

/-- Two characters stand side by side in a text in either of its parts or across the
cut. -/
theorem pair_infix_append {a b : Char} {front back : List Char} (h : [a, b] <:+: front ++ back) :
    [a, b] <:+: front ∨ [a, b] <:+: back ∨ a ∈ front ∧ back.head? = some b := by
  induction front with
  | nil => exact .inr (.inl h)
  | cons c front ih =>
    rcases List.infix_cons_iff.mp h with hstart | hlater
    · obtain ⟨rfl, hb⟩ := List.cons_prefix_cons.mp hstart
      cases front with
      | nil =>
        obtain ⟨after, rfl⟩ := hb
        exact .inr (.inr ⟨List.mem_singleton_self _, rfl⟩)
      | cons d front =>
        obtain ⟨rfl, -⟩ := List.cons_prefix_cons.mp hb
        exact .inl ⟨[], front, rfl⟩
    · rcases ih hlater with hfront | hback | ⟨hmem, hhead⟩
      · exact .inl (List.infix_cons hfront)
      · exact .inr (.inl hback)
      · exact .inr (.inr ⟨List.mem_cons_of_mem _ hmem, hhead⟩)

/-- A text without the first of two characters adds no place where they meet. -/
theorem pair_infix_of_notMem {a b : Char} {front back : List Char} (ha : a ∉ front)
    (h : [a, b] <:+: front ++ back) : [a, b] <:+: back := by
  rcases pair_infix_append h with hfront | hback | ⟨hmem, -⟩
  · exact absurd (hfront.subset List.mem_cons_self) ha
  · exact hback
  · exact absurd hmem ha

/-- The two characters are looked for in vain where they stand nowhere side by side. -/
theorem through?_eq_none_iff {a b : Char} {text : List Char} :
    through? a b text = none ↔ ¬ [a, b] <:+: text := by
  fun_induction through? a b text with
  | case1 c d rest hend =>
    simp only [Bool.and_eq_true, decide_eq_true_eq] at hend
    obtain ⟨rfl, rfl⟩ := hend
    have hpair : [c, d] <:+: c :: d :: rest := ⟨[], rest, rfl⟩
    simp [hpair]
  | case2 c d rest hend ih =>
    have hstart : ¬ [a, b] <+: c :: d :: rest := by
      intro h
      obtain ⟨hc, hrest⟩ := List.cons_prefix_cons.mp h
      obtain ⟨hd, -⟩ := List.cons_prefix_cons.mp hrest
      exact hend (by simp [hc, hd])
    have hlater : [a, b] <:+: c :: d :: rest ↔ [a, b] <:+: d :: rest :=
      List.infix_cons_iff.trans (or_iff_right hstart)
    rw [Option.map_eq_none_iff, ih, hlater]
  | case3 text hshort =>
    refine iff_of_true rfl ?_
    intro h
    have hlength := h.length_le
    match text, hlength with
    | c :: d :: rest, _ => exact hshort c d rest rfl

/-! ### Character classes -/

/-- A character of a name is none of `other`, if no name holds one of these. -/
theorem ne_of_isName {c d : Char} (h : isName c = true) (hd : isName d = false) : c ≠ d := by
  rintro rfl
  rw [h] at hd
  cases hd

theorem isName_of_isNameStart {c : Char} (h : isNameStart c = true) : isName c = true := by
  simp only [isNameStart, isName, Char.isAlphanum, Bool.or_eq_true] at h ⊢
  rcases h with h | h
  · exact .inl (.inl h)
  · exact .inr h

theorem isName_of_isDigits {c : Char} (h : isDigits c = true) : isName c = true := by
  simp only [isDigits, isName, Char.isAlphanum, Bool.or_eq_true] at h ⊢
  rcases h with h | h
  · exact .inl (.inr h)
  · exact .inr h

/-! ### Lexemes that end themselves -/

/-- A recogniser whose match does not depend on what follows its lexeme. -/
def SelfDelimiting (recognise : List Char → Option (List Char)) : Prop :=
  ∀ {text lexeme : List Char} (tail : List Char),
    recognise text = some lexeme → recognise (lexeme ++ tail) = some lexeme

theorem through?_selfDelimiting (a b : Char) : SelfDelimiting (through? a b) := by
  intro text lexeme tail h
  fun_induction through? a b text generalizing lexeme with
  | case1 c d rest hend =>
    cases h
    simp [through?, hend]
  | case2 c d rest hend ih =>
    obtain ⟨body, hbody, rfl⟩ := Option.map_eq_some_iff.mp h
    have htail := ih hbody
    -- The rest of the match starts with the second character that was looked at.
    obtain ⟨after, rfl⟩ : ∃ after, body = d :: after := by
      cases rest with
      | nil => cases hbody
      | cons e rest =>
        rw [through?] at hbody
        split at hbody
        · cases hbody
          exact ⟨_, rfl⟩
        · obtain ⟨after, -, rfl⟩ := Option.map_eq_some_iff.mp hbody
          exact ⟨after, rfl⟩
    rw [List.cons_append] at htail
    simp only [List.cons_append, through?, if_neg hend, htail, Option.map_some]
  | case3 text hshort => cases h

theorem stringBody?_selfDelimiting : SelfDelimiting stringBody? := by
  intro text lexeme tail h
  fun_induction stringBody? text generalizing lexeme with
  | case1 => cases h
  | case2 rest =>
    cases h
    rfl
  | case3 c rest ih =>
    obtain ⟨body, hbody, rfl⟩ := Option.map_eq_some_iff.mp h
    simp only [List.cons_append, stringBody?, ih hbody, Option.map_some]
  | case4 => cases h
  | case5 c rest hquote hescape hslash ih =>
    obtain ⟨body, hbody, rfl⟩ := Option.map_eq_some_iff.mp h
    rw [List.cons_append, stringBody?]
    · simp [hslash, ih hbody]
    · exact hquote
    · intro d after hc
      exact absurd hc hslash

theorem string?_selfDelimiting : SelfDelimiting string? := by
  intro text lexeme tail h
  unfold string? at h
  split at h
  · next rest =>
    obtain ⟨body, hbody, rfl⟩ := Option.map_eq_some_iff.mp h
    simp only [List.cons_append, string?, stringBody?_selfDelimiting tail hbody, Option.map_some]
  · cases h

theorem rawString?_selfDelimiting : SelfDelimiting rawString? := by
  intro text lexeme tail h
  unfold rawString? at h
  split at h
  · next rest =>
    obtain ⟨body, hbody, rfl⟩ := Option.map_eq_some_iff.mp h
    have hthrough := through?_selfDelimiting _ _ tail hbody
    simp only [List.cons_append, rawString?, hthrough, Option.map_some]
  · next rest =>
    split at h
    · cases h
    · next quote after hdrop =>
      cases h
      have hrun := forall_mem_takeWhile (fun c => decide (c ≠ '\x22')) rest
      have hquote : Stops (fun c => decide (c ≠ '\x22')) (quote :: tail) := by
        have hstop := stops_dropWhile (fun c => decide (c ≠ '\x22')) rest
        rw [hdrop] at hstop
        exact stops_cons.mpr (stops_cons.mp hstop)
      simp only [List.cons_append, List.append_assoc, List.nil_append, rawString?,
        dropWhile_append_stops hrun hquote, takeWhile_append_stops hrun hquote]
  · cases h

/-- Between two ticks stands a character or the escape for one, whatever follows. -/
theorem characterBody?_append {text body : List Char} (tail : List Char)
    (h : characterBody? text = some body) :
    characterBody? (body ++ '\x27' :: tail) = some body := by
  unfold characterBody? at h
  split at h
  · split at h
    · next high low rest hhex =>
      cases h
      simp [characterBody?, hhex]
    · cases h
  · next rest =>
    split at h
    · dsimp only at h
      split at h
      · next after hdrop hlength =>
        cases h
        have hrun := forall_mem_takeWhile isHex rest
        have hstop : Stops isHex ('\x7d' :: '\x27' :: tail) := stops_cons.mpr (by decide)
        simp only [List.cons_append, List.append_assoc, List.nil_append, characterBody?,
          dropWhile_append_stops hrun hstop, takeWhile_append_stops hrun hstop, if_pos hlength]
      · cases h
    · cases h
  · next c rest hx hu =>
    split at h
    · cases h
    · next hc =>
      cases h
      simp only [Bool.or_eq_true, decide_eq_true_eq, not_or] at hc
      simp [characterBody?, hc.1, hc.2]
  · next c rest hx hu hescape =>
    split at h
    · cases h
    · next hc =>
      cases h
      simp only [Bool.or_eq_true, decide_eq_true_eq, not_or] at hc
      simp [characterBody?, hc.1.1, hc.1.2, hc.2]
  · cases h

theorem character?_selfDelimiting : SelfDelimiting character? := by
  intro text lexeme tail h
  unfold character? at h
  split at h
  · next rest =>
    split at h
    · cases h
    · next body hbody =>
      split at h
      · cases h
        simp only [List.cons_append, List.append_assoc, List.nil_append, character?,
          characterBody?_append tail hbody, List.drop_left]
      · cases h
  · cases h

/-- A byte marker in front changes nothing about where a lexeme ends. -/
theorem byteMarked?_selfDelimiting {recognise : List Char → Option (List Char)} {mark : Char}
    (h : SelfDelimiting recognise) (hmark : mark ≠ 'b')
    (hhead : ∀ {text lexeme}, recognise text = some lexeme → lexeme.head? = some mark) :
    SelfDelimiting (byteMarked? recognise) := by
  intro text lexeme tail hlexeme
  unfold byteMarked? at hlexeme
  split at hlexeme
  · next rest =>
    obtain ⟨body, hbody, rfl⟩ := Option.map_eq_some_iff.mp hlexeme
    simp only [List.cons_append, byteMarked?, h tail hbody, Option.map_some]
  · have hstart := hhead hlexeme
    cases lexeme with
    | nil => cases hstart
    | cons c rest =>
      obtain rfl : c = mark := by simpa using hstart
      rw [List.cons_append, byteMarked?]
      · exact h tail hlexeme
      · exact fun after => by simp [hmark]

theorem head?_rawString? {text lexeme : List Char} (h : rawString? text = some lexeme) :
    lexeme.head? = some 'r' := by
  unfold rawString? at h
  split at h
  · obtain ⟨body, -, rfl⟩ := Option.map_eq_some_iff.mp h
    rfl
  · split at h
    · cases h
    · cases h
      rfl
  · cases h

theorem head?_string? {text lexeme : List Char} (h : string? text = some lexeme) :
    lexeme.head? = some '\x22' := by
  unfold string? at h
  split at h
  · obtain ⟨body, -, rfl⟩ := Option.map_eq_some_iff.mp h
    rfl
  · cases h

theorem head?_character? {text lexeme : List Char} (h : character? text = some lexeme) :
    lexeme.head? = some '\x27' := by
  unfold character? at h
  split at h
  · split at h
    · cases h
    · split at h
      · cases h
        rfl
      · cases h
  · cases h

/-! ### Names -/

/-- The characters of a name: one it can start with, and others it can go on with. -/
def IsName : List Char → Prop
  | [] => False
  | c :: rest => isNameStart c = true ∧ ∀ d ∈ rest, isName d = true

theorem IsName.forall_mem {name : List Char} (h : IsName name) : ∀ c ∈ name, isName c = true := by
  cases name with
  | nil => nofun
  | cons c rest =>
    intro d hd
    rcases List.mem_cons.mp hd with rfl | hd
    · exact isName_of_isNameStart h.1
    · exact h.2 d hd

theorem IsName.dropLast {name : List Char} (h : IsName name) (hlength : 1 < name.length) :
    IsName name.dropLast := by
  cases name with
  | nil => exact h
  | cons c rest =>
    cases rest with
    | nil => simp at hlength
    | cons d rest =>
      refine ⟨h.1, fun e he => h.2 e ?_⟩
      exact List.dropLast_subset (d :: rest) he

theorem IsName.append {name tail : List Char} (h : IsName name)
    (ht : ∀ c ∈ tail, isName c = true) : IsName (name ++ tail) := by
  cases name with
  | nil => exact h.elim
  | cons c rest => exact ⟨h.1, List.forall_mem_append.mpr ⟨h.2, ht⟩⟩

theorem isName_of_name? {text name : List Char} (h : name? text = some name) : IsName name := by
  unfold name? at h
  split at h
  · split at h
    · next c rest hc =>
      cases h
      exact ⟨hc, forall_mem_takeWhile isName rest⟩
    · cases h
  · cases h

/-- A name is read whole in front of a text that does not go on with it. -/
theorem name?_append {name tail : List Char} (h : IsName name) (ht : Stops isName tail) :
    name? (name ++ tail) = some name := by
  cases name with
  | nil => exact h.elim
  | cons c rest => rw [List.cons_append, name?, if_pos h.1, takeWhile_append_stops h.2 ht]

/-- An identifier is a name, or a name behind `r#`. -/
def IsIdent (lexeme : List Char) : Prop :=
  IsName lexeme ∨ ∃ name, IsName name ∧ lexeme = 'r' :: '#' :: name

theorem isIdent_of_ident? {text lexeme : List Char} (h : ident? text = some lexeme) :
    IsIdent lexeme := by
  unfold ident? at h
  split at h
  · split at h
    · next name hname =>
      cases h
      exact .inr ⟨name, isName_of_name? hname, rfl⟩
    · cases h
      exact .inl ⟨by decide, by simp⟩
  · exact .inl (isName_of_name? h)

/-- An identifier is read whole in front of an edge. -/
theorem ident?_append {lexeme tail : List Char} (h : IsIdent lexeme) (ht : AtEdge tail) :
    ident? (lexeme ++ tail) = some lexeme := by
  have hname : Stops isName tail := ht.stops (by decide)
  rcases h with h | ⟨name, h, rfl⟩
  · rw [ident?]
    · exact name?_append h hname
    · -- Neither a name nor an edge goes on with `#`.
      intro rest heq
      cases lexeme with
      | nil => exact h
      | cons c after =>
        rw [List.cons_append, List.cons.injEq] at heq
        obtain ⟨rfl, heq⟩ := heq
        have hpound : Stops (fun c => decide (c = '#')) (after ++ tail) :=
          stops_append h.2 (fun d hd => by simpa using ne_of_isName hd (by decide))
            (ht.stops (by decide))
        rw [heq, stops_cons] at hpound
        simp at hpound
  · rw [List.cons_append, List.cons_append, ident?, name?_append h hname]

/-- A lifetime is a tick and a name. -/
theorem exists_name_of_lifetime? {text lexeme : List Char} (h : lifetime? text = some lexeme) :
    ∃ name, IsName name ∧ lexeme = '\x27' :: name := by
  unfold lifetime? at h
  split at h
  · split at h
    · cases h
    · next name hname =>
      have hisName := isName_of_name? hname
      split at h
      · split at h
        · cases h
        · next hlength =>
          cases h
          exact ⟨name.dropLast, hisName.dropLast (Nat.lt_of_not_le hlength), rfl⟩
      · cases h
        exact ⟨name, hisName, rfl⟩
  · cases h

theorem lifetime?_append {name tail : List Char} (h : IsName name) (ht : AtEdge tail) :
    lifetime? ('\x27' :: (name ++ tail)) = some ('\x27' :: name) := by
  have htick : Stops (fun c => decide (c = '\x27')) tail := ht.stops (by decide)
  simp only [lifetime?, name?_append h (ht.stops (by decide)), List.drop_left]
  split
  · rw [stops_cons] at htick
    simp at htick
  · rfl

/-- A lifetime in front of an edge is no character between ticks. -/
theorem character?_lifetime {name tail : List Char} (h : IsName name) (ht : AtEdge tail) :
    character? ('\x27' :: (name ++ tail)) = none := by
  cases name with
  | nil => exact h.elim
  | cons c rest =>
    have hc := isName_of_isNameStart h.1
    have hbody : characterBody? (c :: (rest ++ tail)) = some [c] := by
      have htick := ne_of_isName hc (by decide : isName '\x27' = false)
      have hslash := ne_of_isName hc (by decide : isName '\x5c' = false)
      have hline := ne_of_isName hc (by decide : isName '\n' = false)
      simp [characterBody?, htick, hslash, hline]
    have hstop : Stops (fun c => decide (c = '\x27')) (rest ++ tail) :=
      stops_append h.2 (fun d hd => by simpa using ne_of_isName hd (by decide))
        (ht.stops (by decide))
    simp only [List.cons_append, character?, hbody, List.length_singleton, List.drop_succ_cons,
      List.drop_zero]
    split
    · next after heq =>
      rw [heq, stops_cons] at hstop
      simp at hstop
    · rfl

end Terminal

end Qualify
