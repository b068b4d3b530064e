import Qualify.Proofs.Terminal.Edge

/-!
# Numbers in front of an edge

A number is read in four parts, each as long as it can be: digits, a fraction, an
exponent and a suffix. Put in front of an edge, each part is read again as it was,
because the part behind it, or the edge, does not go on with it (`number?_append`).
-/

namespace Qualify

namespace Terminal

theorem drop_length_takeWhile (p : Char → Bool) (text : List Char) :
    text.drop (text.takeWhile p).length = text.dropWhile p := by
  induction text with
  | nil => rfl
  | cons c rest ih =>
    rw [List.takeWhile_cons, List.dropWhile_cons]
    split
    · exact ih
    · rfl

/-! ### Fractions -/

/-- A fraction is empty, or a point, a digit and further digits. -/
theorem fraction_cases (text : List Char) :
    fraction text = [] ∨ ∃ c rest, c.isDigit = true ∧ text = '.' :: c :: rest ∧
      fraction text = '.' :: c :: rest.takeWhile isDigits := by
  unfold fraction
  split
  · next c rest =>
    split
    · next hc => exact .inr ⟨c, rest, hc, rfl, rfl⟩
    · exact .inl rfl
  · exact .inl rfl

theorem fraction_eq_nil_of_stops {text : List Char}
    (h : Stops (fun c => decide (c = '.')) text) : fraction text = [] := by
  rcases fraction_cases text with hnil | ⟨c, rest, -, rfl, -⟩
  · exact hnil
  · rw [stops_cons] at h
    simp at h

/-- A fraction is read again in front of what is neither a digit nor a point. -/
theorem fraction_append (text : List Char) {tail : List Char} (hdigits : Stops isDigits tail)
    (hpoint : Stops (fun c => decide (c = '.')) tail) :
    fraction (fraction text ++ tail) = fraction text := by
  rcases fraction_cases text with hnil | ⟨c, rest, hc, -, hfraction⟩
  · rw [hnil]
    exact fraction_eq_nil_of_stops hpoint
  · rw [hfraction, List.cons_append, List.cons_append, fraction, if_pos hc,
      takeWhile_append_stops (forall_mem_takeWhile isDigits rest) hdigits]

theorem stops_fraction_append {p : Char → Bool} {tail : List Char} (text : List Char)
    (hp : p '.' = false) (h : Stops p tail) : Stops p (fraction text ++ tail) := by
  rcases fraction_cases text with hnil | ⟨c, rest, -, -, hfraction⟩
  · rw [hnil]
    exact h
  · rw [hfraction]
    exact stops_cons.mpr hp

theorem stops_drop_fraction {text : List Char} (h : Stops isDigits text) :
    Stops isDigits (text.drop (fraction text).length) := by
  rcases fraction_cases text with hnil | ⟨c, rest, -, htext, hfraction⟩
  · rw [hnil]
    exact h
  · rw [hfraction, htext]
    rw [List.length_cons, List.length_cons, List.drop_succ_cons, List.drop_succ_cons,
      drop_length_takeWhile]
    exact stops_dropWhile isDigits rest

/-! ### Exponents -/

/-- The marks that start an exponent. -/
def isExponentMark (c : Char) : Bool := c = 'e' || c = 'E'

/-- The signs of an exponent. -/
def isSign (c : Char) : Bool := c = '+' || c = '-'

/-- The digits of an exponent, given what follows its mark. -/
def exponentDigits (text : List Char) : List Char :=
  (text.drop (sign text).length).takeWhile isDigits

theorem exponent_mark {c : Char} (rest : List Char) (h : isExponentMark c = true) :
    exponent (c :: rest) =
      if (exponentDigits rest).isEmpty then [] else c :: (sign rest ++ exponentDigits rest) := by
  rw [exponent]
  exact if_pos h

theorem exponent_eq_nil_of_stops {text : List Char} (h : Stops isExponentMark text) :
    exponent text = [] := by
  cases text with
  | nil => rfl
  | cons c rest =>
    rw [exponent]
    refine if_neg ?_
    intro hc
    have hstop := stops_cons.mp h
    rw [isExponentMark, hc] at hstop
    cases hstop

/-- An exponent is empty, or a mark, a sign and at least one digit. -/
theorem exponent_cases (text : List Char) :
    exponent text = [] ∨ ∃ c rest, isExponentMark c = true ∧ text = c :: rest ∧
      exponentDigits rest ≠ [] ∧ exponent text = c :: (sign rest ++ exponentDigits rest) := by
  cases text with
  | nil => exact .inl rfl
  | cons c rest =>
    cases hc : isExponentMark c with
    | false => exact .inl (exponent_eq_nil_of_stops (stops_cons.mpr hc))
    | true =>
      by_cases hdigits : exponentDigits rest = []
      · left
        rw [exponent_mark rest hc, hdigits]
        rfl
      · right
        refine ⟨c, rest, hc, rfl, hdigits, ?_⟩
        rw [exponent_mark rest hc, if_neg (by simpa using hdigits)]

/-- A sign is a plus, a minus or absent. -/
theorem sign_cases (text : List Char) :
    (sign text = [] ∧ Stops isSign text) ∨
      ∃ c rest, isSign c = true ∧ text = c :: rest ∧ sign text = [c] := by
  unfold sign
  split
  · next c rest =>
    split
    · next hc => exact .inr ⟨c, rest, hc, rfl, rfl⟩
    · next hc => exact .inl ⟨rfl, stops_cons.mpr (by simpa [isSign] using hc)⟩
  · exact .inl ⟨rfl, stops_nil _⟩

theorem sign_eq_nil_of_stops {text : List Char} (h : Stops isSign text) : sign text = [] := by
  rcases sign_cases text with ⟨hnil, -⟩ | ⟨c, rest, hc, rfl, -⟩
  · exact hnil
  · rw [stops_cons, hc] at h
    cases h

theorem isSign_eq_false_of_isName {c : Char} (h : isName c = true) : isSign c = false := by
  have hplus := ne_of_isName h (by decide : isName '+' = false)
  have hminus := ne_of_isName h (by decide : isName '-' = false)
  simp [isSign, hplus, hminus]

theorem isDigits_eq_false_of_isExponentMark {c : Char} (h : isExponentMark c = true) :
    isDigits c = false := by
  simp only [isExponentMark, Bool.or_eq_true, decide_eq_true_eq] at h
  rcases h with rfl | rfl <;> decide

theorem forall_mem_exponentDigits (text : List Char) :
    ∀ c ∈ exponentDigits text, isDigits c = true :=
  forall_mem_takeWhile isDigits _

theorem sign_append {text digits : List Char} (tail : List Char)
    (hdigits : ∀ c ∈ digits, isDigits c = true) (hne : digits ≠ []) :
    sign (sign text ++ (digits ++ tail)) = sign text := by
  rcases sign_cases text with ⟨hnil, -⟩ | ⟨c, rest, hc, -, hsign⟩
  · rw [hnil, List.nil_append]
    apply sign_eq_nil_of_stops
    cases digits with
    | nil => exact absurd rfl hne
    | cons d digits =>
      have hd := isName_of_isDigits (hdigits d List.mem_cons_self)
      exact stops_cons.mpr (isSign_eq_false_of_isName hd)
  · rw [hsign, List.singleton_append, sign]
    exact if_pos hc

/-- An exponent is read again in front of what is no digit. -/
theorem exponent_append {text tail : List Char} (hne : exponent text ≠ [])
    (h : Stops isDigits tail) : exponent (exponent text ++ tail) = exponent text := by
  rcases exponent_cases text with hnil | ⟨c, rest, hc, -, hdigits, hexponent⟩
  · exact absurd hnil hne
  · have hrun := forall_mem_exponentDigits rest
    have hsign : sign (sign rest ++ (exponentDigits rest ++ tail)) = sign rest :=
      sign_append tail hrun hdigits
    have hagain : exponentDigits (sign rest ++ (exponentDigits rest ++ tail)) =
        exponentDigits rest := by
      change List.takeWhile isDigits (List.drop
        (sign (sign rest ++ (exponentDigits rest ++ tail))).length
          (sign rest ++ (exponentDigits rest ++ tail))) = exponentDigits rest
      rw [hsign, List.drop_left, takeWhile_append_stops hrun h]
    rw [hexponent, List.cons_append, List.append_assoc, exponent_mark _ hc, hagain, hsign,
      if_neg (by simpa using hdigits)]

theorem stops_exponent_append {p : Char → Bool} {tail : List Char} (text : List Char)
    (hp : ∀ c, isExponentMark c = true → p c = false) (h : Stops p tail) :
    Stops p (exponent text ++ tail) := by
  rcases exponent_cases text with hnil | ⟨c, rest, hc, -, -, hexponent⟩
  · rw [hnil]
    exact h
  · rw [hexponent]
    exact stops_cons.mpr (hp c hc)

theorem stops_drop_exponent {text : List Char} (h : Stops isDigits text) :
    Stops isDigits (text.drop (exponent text).length) := by
  rcases exponent_cases text with hnil | ⟨c, rest, -, htext, -, hexponent⟩
  · rw [hnil]
    exact h
  · have hdrop : text.drop (exponent text).length =
        (rest.drop (sign rest).length).dropWhile isDigits := by
      rw [hexponent, htext, List.length_cons, List.drop_succ_cons, List.length_append,
        ← List.drop_drop, exponentDigits, drop_length_takeWhile]
    rw [hdrop]
    exact stops_dropWhile isDigits _

/-- What was no exponent is none when it becomes a suffix in front of an edge. -/
theorem exponent_suffix {text tail : List Char} (h : exponent text = []) (ht : AtEdge tail) :
    exponent (text.takeWhile isName ++ tail) = [] := by
  have hedge : Stops isExponentMark tail := ht.stops (by decide)
  cases text with
  | nil => exact exponent_eq_nil_of_stops hedge
  | cons c rest =>
    cases hc : isExponentMark c with
    | false =>
      exact exponent_eq_nil_of_stops (stops_takeWhile_append (stops_cons.mpr hc) hedge)
    | true =>
      have hname : isName c = true := by
        simp only [isExponentMark, Bool.or_eq_true, decide_eq_true_eq] at hc
        rcases hc with rfl | rfl <;> decide
      have hnone : exponentDigits rest = [] := by
        rw [exponent_mark rest hc] at h
        split at h
        · next hempty => simpa using hempty
        · cases h
      -- The suffix goes on with names only, so a sign that stood here is cut off.
      have hsign : sign (rest.takeWhile isName ++ tail) = [] :=
        sign_eq_nil_of_stops (stops_append (forall_mem_takeWhile isName rest)
          (fun d hd => isSign_eq_false_of_isName hd) (ht.stops (by decide)))
      have hstop : Stops isDigits (rest.takeWhile isName ++ tail) := by
        rcases sign_cases rest with ⟨hnil, -⟩ | ⟨d, after, hd, rfl, -⟩
        · rw [exponentDigits, hnil] at hnone
          exact stops_takeWhile_append (stops_of_takeWhile_eq_nil hnone) (ht.stops (by decide))
        · have hrun : (d :: after).takeWhile isName = [] := by
            refine takeWhile_eq_nil_of_stops (stops_cons.mpr ?_)
            simp only [isSign, Bool.or_eq_true, decide_eq_true_eq] at hd
            rcases hd with rfl | rfl <;> decide
          rw [hrun]
          exact ht.stops (by decide)
      rw [List.takeWhile_cons, if_pos hname, List.cons_append, exponent_mark _ hc, exponentDigits,
        hsign, List.length_nil, List.drop_zero, takeWhile_eq_nil_of_stops hstop]
      rfl

/-! ### Whole numbers -/

/-- An exponent and a suffix are read again in front of an edge. -/
theorem exponent_append_suffix {text tail : List Char} (h : Stops isDigits text)
    (ht : AtEdge tail) :
    exponent (exponent text ++
      ((text.drop (exponent text).length).takeWhile isName ++ tail)) = exponent text := by
  by_cases hne : exponent text = []
  · rw [hne, List.nil_append, List.length_nil, List.drop_zero]
    exact exponent_suffix hne ht
  · refine exponent_append hne ?_
    exact stops_takeWhile_append (stops_drop_exponent h) (ht.stops (by decide))

/-- A number is read whole in front of an edge. -/
theorem number?_append {text lexeme tail : List Char} (h : number? text = some lexeme)
    (ht : AtEdge tail) : number? (lexeme ++ tail) = some lexeme := by
  unfold number? at h
  split at h
  · next c rest =>
    split at h
    · next hc =>
      cases h
      -- The parts behind the whole digits, outermost last.
      generalize hafter : rest.dropWhile isDigits = after
      generalize hscaled : after.drop (fraction after).length = scaled
      have hstopAfter : Stops isDigits after := hafter ▸ stops_dropWhile isDigits rest
      have hstopScaled : Stops isDigits scaled := hscaled ▸ stops_drop_fraction hstopAfter
      have hexponent := exponent_append_suffix hstopScaled ht
      generalize hsuffix : (scaled.drop (exponent scaled).length).takeWhile isName = suffix
        at hexponent ⊢
      have hnames : ∀ d ∈ suffix, isName d = true := by
        rw [← hsuffix]
        exact forall_mem_takeWhile isName _
      have hdigits : Stops isDigits (exponent scaled ++ (suffix ++ tail)) := by
        refine stops_exponent_append scaled (fun d => isDigits_eq_false_of_isExponentMark) ?_
        rw [← hsuffix]
        exact stops_takeWhile_append (stops_drop_exponent hstopScaled) (ht.stops (by decide))
      have hpoint : Stops (fun c => decide (c = '.')) (exponent scaled ++ (suffix ++ tail)) := by
        refine stops_exponent_append scaled (fun d hd => ?_) (stops_append hnames ?_
          (ht.stops (by decide)))
        · simp only [isExponentMark, Bool.or_eq_true, decide_eq_true_eq] at hd
          rcases hd with rfl | rfl <;> decide
        · exact fun d hd => by simpa using ne_of_isName hd (by decide)
      have hfraction := fraction_append after hdigits hpoint
      have hwhole : Stops isDigits (fraction after ++ (exponent scaled ++ (suffix ++ tail))) :=
        stops_fraction_append after (by decide) hdigits
      have hrun := forall_mem_takeWhile isDigits rest
      simp only [List.cons_append, List.append_assoc, number?, if_pos hc,
        takeWhile_append_stops hrun hwhole, dropWhile_append_stops hrun hwhole, hfraction,
        List.drop_left, hexponent, takeWhile_append_stops hnames (ht.stops (by decide))]
    · cases h
  · cases h

end Terminal

end Qualify
