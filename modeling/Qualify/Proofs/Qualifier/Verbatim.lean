import Mathlib.Data.List.Induction
import Qualify.Proofs.Qualifier.Level
import Qualify.Proofs.Qualifier.Rewriting

/-!
# Names behind a separator or a tick

A name behind `::` belongs to a path that is qualified already, and a name behind a tick
is a lifetime. Both are kept, whatever stands around them, with one exception: a `#`
makes the next token pass without a look at it. Where that token is the first colon of
the `::` or the tick, the name behind is taken for a bare one. A `#` does so only if it
is not itself passed through by another, so what counts is whether the run of `#`
directly in front is odd (`after_eq_afterPound_iff`).

## Main definitions

- `Forest.escapes` — an odd run of `#` ends a part of a level
- `Forest.Lead` — a separator or a tick
-/

namespace Qualify

open Event (Readable)

namespace Forest

/-- Whether a tree behind `front` passes through because of a `#`: the run of `#`
directly in front of it is odd. -/
def escapes (front : Forest) : Bool :=
  (front.reverse.takeWhile (Tree.isPunct "#")).length % 2 = 1

/-- What keeps the name behind it: the separator `::`, or a joint tick. -/
inductive Lead : Forest → Prop
  | separator {first second : Tree} (separate : first.Separate second) : Lead [first, second]
  | tick {mark : Tree} (isTick : mark.isPunctSpaced "'" .joint = true) : Lead [mark]

theorem escapes_concat (front : Forest) (tree : Tree) :
    escapes (front ++ [tree]) = (tree.isPunct "#" && !front.escapes) := by
  unfold escapes
  rw [List.reverse_append, List.reverse_singleton, List.singleton_append, List.takeWhile_cons]
  cases tree.isPunct "#" with
  | false => rfl
  | true =>
    simp only [if_true, List.length_cons, Bool.true_and, ← decide_not, decide_eq_decide]
    omega

end Forest

namespace Qualifier

theorem after_concat (qualifier : Qualifier) (state : State) (front : Forest) (token : Token) :
    qualifier.after state (front ++ [.token token]) =
      (qualifier.step (qualifier.after state front) token).state := by
  rw [after_append]
  rfl

/-- A `#` that passes through leads back to `normal`, any other makes the next token
pass through. -/
theorem state_plain_pound (scope : Scope) (state : State) {mark : Punct} (h : mark.text = "#") :
    (plain scope state (.punct mark)).state = .afterPound ↔ state ≠ .afterPound := by
  cases state <;> simp [plain, State.afterPunct, h]

/-- A level goes on behind a `#` that makes the next token pass through exactly where
the run of `#` is odd. -/
theorem after_eq_afterPound_iff {qualifier : Qualifier} (hroot : qualifier.root = none)
    (front : Forest) :
    qualifier.after .normal front = .afterPound ↔ front.escapes = true := by
  induction front using List.reverseRecOn with
  | nil => simp [after, Forest.escapes]
  | append_singleton front tree ih =>
    rw [Forest.escapes_concat]
    cases tree with
    | group delimiter inner span =>
      rw [after_append]
      simp [after, Tree.isPunct]
    | token token =>
      rw [after_concat, step_of_root_eq_none hroot]
      by_cases hpound : (Tree.token token).isPunct "#" = true
      · obtain ⟨mark, hmark⟩ := Declaration.exists_punct_of_isPunct hpound
        cases hmark
        have htext : mark.text = "#" := by simpa [Tree.isPunct] using hpound
        rw [state_plain_pound _ _ htext, Ne, ih, hpound]
        simp
      · -- Only a `#` leads to the state behind one.
        have hstate : (plain qualifier.scope (qualifier.after .normal front) token).state ≠
            .afterPound := fun hstate => hpound (isPunct_of_state_plain hstate)
        simp [hstate, hpound]

/-! ### The state behind a separator or a tick -/

theorem exists_of_isPunctSpaced {tree : Tree} {text : String} {spacing : Spacing}
    (h : tree.isPunctSpaced text spacing = true) :
    ∃ mark : Punct, tree = .punct mark ∧ mark.text = text ∧ mark.spacing = spacing := by
  obtain ⟨mark, rfl⟩ :=
    Declaration.exists_punct_of_isPunct (Declaration.isPunct_of_isPunctSpaced h)
  exact ⟨mark, rfl, by simpa [Tree.isPunctSpaced] using h⟩

theorem afterPunct_colon (state : State) {mark : Punct} (h : mark.text = ":") :
    state.afterPunct mark = .afterColon ∨ mark.spacing = .alone ∧ state.afterPunct mark = state := by
  unfold State.afterPunct
  rw [if_pos h]
  cases mark.spacing with
  | joint => exact .inl rfl
  | alone => exact .inr ⟨rfl, rfl⟩

/-- Behind a separator or a tick a name is kept, unless the first mark passed through. -/
theorem after_lead_ne_normal {qualifier : Qualifier} (hroot : qualifier.root = none)
    {lead : Forest} (h : lead.Lead) {state : State} (hstate : state ≠ .afterPound) :
    qualifier.after state lead ≠ .normal := by
  cases h with
  | @separator first second separate =>
    obtain ⟨mark, rfl, htext, hjoint⟩ := exists_of_isPunctSpaced separate.1
    obtain ⟨other, rfl⟩ := Declaration.exists_punct_of_isPunct separate.2
    have hother : other.text = ":" := by simpa [Tree.isPunct] using separate.2
    have hfirst : state.afterPunct mark = .afterColon := by
      rcases afterPunct_colon state htext with hcolon | ⟨halone, -⟩
      · exact hcolon
      · exact absurd (hjoint.symm.trans halone) (by decide)
    -- A second colon keeps the state or leads to the same one.
    have hsecond : State.afterColon.afterPunct other = .afterColon := by
      rcases afterPunct_colon .afterColon hother with hcolon | ⟨-, hkept⟩
      · exact hcolon
      · exact hkept
    have hcolon : State.afterColon ≠ .afterPound := by decide
    rw [after, after, after, step_of_root_eq_none hroot,
      plain_punct_of_ne_afterPound _ mark hstate, hfirst,
      plain_punct_of_ne_afterPound _ other hcolon, hsecond]
    exact (by decide : State.afterColon ≠ .normal)
  | @tick tree isTick =>
    obtain ⟨mark, rfl, htext, hjoint⟩ := exists_of_isPunctSpaced isTick
    have htick : Event.isTick (.token (.punct mark)) = true := by
      simp [Event.isTick, htext, hjoint]
    rw [after, after, step_of_root_eq_none hroot, state_plain_tick qualifier.scope htick hstate]
    decide

/-- Behind a mark that passed through, the second colon of a separator that no mark
follows does not tell the name apart. -/
theorem after_afterPound_lead {qualifier : Qualifier} (hroot : qualifier.root = none)
    {lead : Forest} (h : lead.Lead)
    (hlast : ∀ front mark, lead = front ++ [.punct mark] → mark.text = ":" →
      mark.spacing = .alone) :
    qualifier.after .afterPound lead = .normal := by
  cases h with
  | @separator first second separate =>
    obtain ⟨mark, rfl, -, -⟩ := exists_of_isPunctSpaced separate.1
    obtain ⟨other, rfl⟩ := Declaration.exists_punct_of_isPunct separate.2
    have hother : other.text = ":" := by simpa [Tree.isPunct] using separate.2
    have halone : other.spacing = .alone := hlast [.punct mark] other rfl hother
    simp [after, step_of_root_eq_none hroot, plain, State.afterPunct, hother, halone]
  | @tick tree isTick =>
    obtain ⟨mark, rfl, -, -⟩ := exists_of_isPunctSpaced isTick
    simp [after, step_of_root_eq_none hroot, plain]

end Qualifier

/-! ### In a text -/

theorem Forest.events_fill (enclosures : List Forest.Enclosure) (level : Forest) :
    ∃ front back, Forest.events (fill enclosures level) =
      front ++ (Forest.events level ++ back) := by
  induction enclosures with
  | nil => exact ⟨[], [], by simp [fill]⟩
  | cons outer inside ih =>
    obtain ⟨front, back, hinside⟩ := ih
    refine ⟨Forest.events outer.front ++ .opening outer.delimiter outer.span :: front,
      back ++ .closing outer.delimiter :: Forest.events outer.back, ?_⟩
    rw [fill, Forest.events_append, Forest.events, Tree.events, hinside]
    simp only [List.append_assoc, List.cons_append, List.nil_append]

/-- In a text a colon directly in front of a name is not joint. -/
theorem Event.Readable.colon_alone {mark : Punct} {ident : Ident} {rest : List Event}
    (h : Readable (.token (.punct mark) :: .token (.ident ident) :: rest))
    (hmark : mark.text = ":") : mark.spacing = .alone := by
  cases h with
  | lifetime text _ _ _ => exact absurd (text.symm.trans hmark) (by decide)
  | alone _ _ alone _ => exact alone

theorem Forest.colon_alone_of_lex {file : Option String} {source : String}
    {enclosures : List Enclosure} {front back : Forest} {mark : Punct} {ident : Ident}
    (h : Forest.lex file source =
      .ok (fill enclosures (front ++ .punct mark :: .ident ident :: back)))
    (hmark : mark.text = ":") : mark.spacing = .alone := by
  have hreadable := Forest.readable_of_lex h
  obtain ⟨before, after, hevents⟩ :=
    Forest.events_fill enclosures (front ++ .punct mark :: .ident ident :: back)
  rw [hevents, Forest.events_append, List.append_assoc] at hreadable
  have hcolon := hreadable.of_append.of_append
  rw [Forest.events, Forest.events] at hcolon
  exact Event.Readable.colon_alone hcolon hmark

/-- A name behind `::` or behind a tick is kept, at any depth of a text and whatever
stands around it, unless the run of `#` directly in front of the `::` or the tick is odd.
Then the name is taken for a bare one. -/
theorem Forest.qualify_behind_lead (file : Option String) (source : String) (scope : Scope)
    (config : Config) (enclosures : List Enclosure) (front lead back : Forest) (ident : Ident)
    (hlex : Forest.lex file source =
      .ok (fill enclosures (front ++ (lead ++ .ident ident :: back))))
    (hoff : config.namespacing = false) (hlead : lead.Lead) :
    let qualifier := Qualifier.ofScope scope config
    qualifier.qualify (fill enclosures (front ++ (lead ++ .ident ident :: back))) =
      fill (enclosures.map (·.map qualifier.qualify))
        (qualifier.qualify (front ++ lead) ++
          ((if front.escapes then Qualifier.substitute scope ident else [.ident ident]) ++
            qualifier.qualify back)) := by
  intro qualifier
  have hroot : qualifier.root = none := by simp [qualifier, Qualifier.ofScope, hoff]
  have hnormal : State.normal.held = [] := rfl
  have hheld := Qualifier.held_after hroot (front ++ lead) hnormal
  have hname : (Qualifier.plain scope (qualifier.after .normal (front ++ lead)) (.ident ident)) =
      ⟨if front.escapes then Qualifier.substitute scope ident else [.ident ident], .normal⟩ := by
    rw [Qualifier.after_append]
    by_cases hescapes : front.escapes = true
    · rw [(Qualifier.after_eq_afterPound_iff hroot front).mpr hescapes, if_pos hescapes,
        Qualifier.after_afterPound_lead hroot hlead]
      · rfl
      · rintro before mark rfl
        rw [List.append_assoc, ← List.append_assoc front] at hlex
        exact Forest.colon_alone_of_lex hlex
    · have hstate : qualifier.after .normal front ≠ .afterPound :=
        fun hstate => hescapes ((Qualifier.after_eq_afterPound_iff hroot front).mp hstate)
      rw [if_neg hescapes, Qualifier.plain_ident_of_ne_normal]
      exact Qualifier.after_lead_ne_normal hroot hlead hstate
  rw [Forest.qualify_fill qualifier (Forest.isVisible_of_lex hlex), ← List.append_assoc,
    Qualifier.qualify_eq_level, Qualifier.level_append qualifier _ hheld, Qualifier.level,
    Qualifier.step_of_root_eq_none hroot]
  simp only [Qualifier.qualify_eq_level]
  rw [show qualifier.scope = scope from rfl, hname]

/-- Behind a `#` the name of a path that is qualified already is replaced. -/
theorem Forest.qualify_behind_lead_pound :
    let path : Path := [.name { text := "a" }, .name { text := "N" }]
    let scope : Scope := ⟨[⟨{ text := "N" }, path⟩], []⟩
    let qualifier := Qualifier.ofScope scope {}
    ∃ (outer : Enclosure) (front lead : Forest) (name : Ident),
      Forest.lex none "(#::N)" = .ok (fill [outer] (front ++ (lead ++ [.ident name]))) ∧
      lead.Lead ∧ front.escapes = true ∧
      qualifier.qualify (fill [outer] (front ++ (lead ++ [.ident name]))) =
        fill [outer] (front ++ (lead ++ path.trees)) := by
  intro path scope qualifier
  let mark (before : List Char) (c : Char) (spacing : Spacing) : Tree :=
    .punct ⟨c.toString, spacing, .behind none before [c]⟩
  let outer : Enclosure := ⟨[], .paren, .behind none [] ['('], []⟩
  let front : Forest := [mark ['('] '#' .joint]
  let lead : Forest := [mark ['(', '#'] ':' .joint, mark ['(', '#', ':'] ':' .alone]
  let name : Ident := ⟨"N", .behind none ['(', '#', ':', ':'] ['N']⟩
  have hlex : Forest.lex none "(#::N)" = .ok (fill [outer] (front ++ (lead ++ [.ident name]))) :=
    eq_ok_of_toOption (by decide +kernel)
  have hlead : lead.Lead := .separator ⟨rfl, rfl⟩
  refine ⟨outer, front, lead, name, hlex, hlead, by decide, ?_⟩
  have hqualify := Forest.qualify_behind_lead none _ scope {} [outer] front lead [] name hlex rfl hlead
  rw [hqualify]
  decide +kernel

end Qualify
