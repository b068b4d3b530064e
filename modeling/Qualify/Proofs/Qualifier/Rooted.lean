import Qualify.Proofs.Qualifier.Ahead
import Qualify.Proofs.Qualifier.Local
import Qualify.Proofs.Qualifier.Verbatim

/-!
# Names under the namespace root

With a namespace root a name behind a `$` is put under the root, and so is the name of a
lifetime. Which `$` does so is decided mark by mark, one at a time being held back; what
that comes to is said here of the trees in front (`Forest.namespaces`), and the state of a
level is tracked against it (`Tracked.step`). A name under a root that is a name is an
identifier, but a raw identifier keeps its `r#` behind the root and is none any more. So
of all identifiers that a level puts out, the raw ones behind such a `$` are the only ones
to ask about (`forallIdent_level`).

## Main definitions

- `Forest.namespaces` — whether a name behind the trees is put under the root
- `Forest.rootedRaws` — the raw identifiers that are put under the root
- `Forest.ForallIdent` — what holds of all identifiers among trees, at any depth
- `Qualifier.Tracked` — what the state of a level says about the trees in front
-/

namespace Qualify

open Event (Readable)

namespace Forest

/-- Whether a name behind `front` on its level is put under the namespace root: the `$`
directly in front of it, without the first one if a `#` makes that pass through, are odd in
number. -/
def namespaces (front : Forest) : Bool :=
  let dollars := front.reverse.takeWhile (Tree.isPunct "$")
  let before := (front.reverse.dropWhile (Tree.isPunct "$")).reverse
  (dollars.length - (escapes before).toNat) % 2 = 1

theorem isPunct_pound_of_dollar {tree : Tree} (h : tree.isPunct "$" = true) :
    tree.isPunct "#" = false := by
  obtain ⟨mark, rfl⟩ := Declaration.exists_punct_of_isPunct h
  have hmark : mark.text = "$" := by simpa [Tree.isPunct] using h
  simp [Tree.isPunct, hmark]

/-- A `#` makes a tree pass through only if it stands directly in front, behind no `$`. -/
theorem escapes_of_dollars {front : Forest}
    (h : front.reverse.takeWhile (Tree.isPunct "$") ≠ []) : front.escapes = false := by
  induction front using List.reverseRecOn with
  | nil => rfl
  | append_singleton front tree _ =>
    have htree : tree.isPunct "$" = true := by
      by_contra hother
      simp [hother] at h
    rw [escapes_concat, isPunct_pound_of_dollar htree, Bool.false_and]

/-- A `$` puts the name behind it under the root unless a `#` makes it pass through or the
`$` in front of it does so already. -/
theorem namespaces_concat (front : Forest) (tree : Tree) :
    namespaces (front ++ [tree]) =
      (tree.isPunct "$" && (!front.escapes && !front.namespaces)) := by
  unfold namespaces
  rw [List.reverse_append, List.reverse_singleton, List.singleton_append, List.takeWhile_cons,
    List.dropWhile_cons]
  cases tree.isPunct "$" with
  | false => simp
  | true =>
    simp only [if_true, List.length_cons, Bool.true_and]
    have hsplit := List.takeWhile_append_dropWhile (p := Tree.isPunct "$") (l := front.reverse)
    cases hdollars : front.reverse.takeWhile (Tree.isPunct "$") with
    | nil =>
      -- The `$` is the first of its run, and a `#` may stand in front of it.
      rw [hdollars, List.nil_append] at hsplit
      rw [hsplit, List.reverse_reverse]
      cases front.escapes <;> rfl
    | cons dollar dollars =>
      have hescapes : front.escapes = false := escapes_of_dollars (by rw [hdollars]; simp)
      simp only [hescapes, List.length_cons, Bool.not_false, Bool.true_and, ← decide_not,
        decide_eq_decide]
      have hle := Bool.toNat_le (escapes (front.reverse.dropWhile (Tree.isPunct "$")).reverse)
      omega

end Forest

namespace Qualifier

theorem afterPunct_eq_afterPound_iff {state : State} (mark : Punct) (h : state ≠ .afterPound) :
    state.afterPunct mark = .afterPound ↔ mark.text = "#" := by
  unfold State.afterPunct
  split
  · next hcolon =>
    rw [hcolon]
    split <;> simp [h]
  split
  · next hpound => simp [hpound]
  · next hpound =>
    simp only [hpound, iff_false]
    split <;> simp

/-- What a mark leads to under a namespace root: it is held back, alone or as the tick
behind a `$`, or nothing is held back behind it. -/
theorem state_namespacing_punct (scope : Scope) (root : String) (state : State) (mark : Punct) :
    let next := (namespacing scope root state (.punct mark)).state
    (next = .dollar mark ∧ mark.text = "$" ∧ state.held = [] ∧ state ≠ .afterPound) ∨
      (∃ held, next = .dollarTick held mark ∧ mark.text = "'") ∨
      (next.held = [] ∧ (next = .afterPound ↔ mark.text = "#" ∧ state ≠ .afterPound) ∧
        (mark.text = "$" → state.held ≠ [] ∨ state = .afterPound)) := by
  have hpassed {state : State} (hheld : state.held = []) (hstate : state ≠ .afterPound) :
      (state.afterPunct mark).held = [] ∧
        (state.afterPunct mark = .afterPound ↔ mark.text = "#") :=
    ⟨held_afterPunct hheld, afterPunct_eq_afterPound_iff mark hstate⟩
  have hnormal := hpassed (rfl : State.normal.held = []) (by decide)
  cases state with
  | dollar held =>
    by_cases hdollar : mark.text = "$"
    · simp [namespacing, hdollar, State.held]
    · by_cases htick : mark.text = "'"
      · simp [namespacing, htick]
      · refine .inr (.inr ?_)
        simp [namespacing, hdollar, htick, release, plain, hnormal]
  | dollarTick held tick =>
    exact .inr (.inr ⟨hnormal.1, hnormal.2.trans (by simp), fun _ => .inl (by simp [State.held])⟩)
  | afterPound => exact .inr (.inr ⟨rfl, by simp [namespacing, plain], fun _ => .inr rfl⟩)
  | normal | afterColon | afterTick =>
    by_cases hdollar : mark.text = "$"
    · exact .inl ⟨by simp [namespacing, hdollar], hdollar, rfl, by decide⟩
    · refine .inr (.inr ?_)
      simpa [namespacing, hdollar, plain] using hpassed rfl (by decide)

/-- Among events that can be read back a tick stands in front of a name that is not raw. -/
theorem exists_lifetime {mark : Punct} {rest : List Event}
    (h : Readable (.token (.punct mark) :: rest)) (hmark : mark.text = "'") :
    ∃ name after, rest = .token (.ident name) :: after ∧ Terminal.IsName name.text.toList := by
  obtain ⟨hjoint, name, after, rfl⟩ := h.exists_name hmark
  cases h with
  | lifetime _ _ isName _ => exact ⟨name, after, rfl, isName⟩
  | alone _ _ alone _ => exact absurd (hjoint.symm.trans alone) (by decide)

/-- What the state of a level under a namespace root says about the trees in front, and, of
a tick that is held back, about the events that come next. -/
structure Tracked (front : Forest) (state : State) (events : List Event) : Prop where
  pound : state = .afterPound ↔ front.escapes = true
  dollar : (∃ held, state = .dollar held) ↔ front.namespaces = true
  tick : ∀ held tick, state = .dollarTick held tick →
    ∃ name after, events = .token (.ident name) :: after ∧ Terminal.IsName name.text.toList

theorem tracked_start (events : List Event) : Tracked [] .normal events where
  pound := by decide
  dollar := by simp [Forest.namespaces]
  tick := by simp

theorem tracked_of_settles (front : Forest) {tree : Tree} (h : tree.settles = true)
    (events : List Event) : Tracked (front ++ [tree]) .normal events := by
  have hmarks : tree.isPunct "#" = false ∧ tree.isPunct "$" = false := by
    match tree with
    | .token (.punct mark) =>
      obtain ⟨-, hpound, -, hdollar⟩ := Tree.settles_punct.mp h
      simp [Tree.isPunct, hpound, hdollar]
    | .token (.ident _) | .token (.literal _) | .group .. => exact ⟨rfl, rfl⟩
  constructor
  · simp [Forest.escapes_concat, hmarks]
  · simp [Forest.namespaces_concat, hmarks]
  · simp

/-- A `$` that is not held back passes through or is taken by the `$` in front of it. -/
theorem Tracked.not_namespaces_concat {front : Forest} {state : State} {mark : Punct}
    {events : List Event} (h : Tracked front state (.token (.punct mark) :: events))
    (hdollar : mark.text = "$" → state.held ≠ [] ∨ state = .afterPound) :
    Forest.namespaces (front ++ [.punct mark]) = false := by
  rw [Forest.namespaces_concat]
  by_cases hmark : mark.text = "$"
  · rcases hdollar hmark with hheld | hstate
    · cases state with
      | dollar held => simp [h.dollar.mp ⟨held, rfl⟩]
      | dollarTick held tick =>
        obtain ⟨name, after, hname, -⟩ := h.tick held tick rfl
        cases hname
      | normal | afterColon | afterPound | afterTick => exact absurd rfl hheld
    · simp [h.pound.mp hstate]
  · simp [Tree.isPunct, hmark]

/-- Each token keeps track. A `$` behind a tick that is held back would not, but a name
follows every tick. -/
theorem Tracked.step {front : Forest} {state : State} {token : Token} {events : List Event}
    (h : Tracked front state (.token token :: events)) (hr : Readable (.token token :: events))
    (scope : Scope) (root : String) :
    Tracked (front ++ [.token token]) (namespacing scope root state token).state events := by
  cases token with
  | ident ident | literal literal =>
    rw [state_namespacing_of_settles scope root state rfl]
    exact tracked_of_settles front rfl events
  | punct mark =>
    rcases state_namespacing_punct scope root state mark with
      ⟨hnext, hdollar, hheld, hstate⟩ | ⟨held, hnext, htick⟩ | ⟨hheld, hpound, hdollar⟩
    · have hescapes : front.escapes = false := by simpa [h.pound] using hstate
      have hnamespaces : front.namespaces = false := by
        rw [← Bool.not_eq_true, ← h.dollar]
        rintro ⟨held, rfl⟩
        cases hheld
      rw [hnext]
      constructor
      · simp [Forest.escapes_concat, Tree.isPunct, hdollar]
      · simp [Forest.namespaces_concat, Tree.isPunct, hdollar, hescapes, hnamespaces]
      · simp
    · rw [hnext]
      constructor
      · simp [Forest.escapes_concat, Tree.isPunct, htick]
      · simp [Forest.namespaces_concat, Tree.isPunct, htick]
      · rintro - - -
        exact exists_lifetime hr htick
    · constructor
      · simp [hpound, h.pound, Forest.escapes_concat, Tree.isPunct]
      · rw [h.not_namespaces_concat hdollar]
        refine iff_of_false ?_ (by decide)
        rintro ⟨held, hnext⟩
        rw [hnext] at hheld
        cases hheld
      · intro held tick hnext
        rw [hnext] at hheld
        cases hheld

end Qualifier

/-! ### Identifiers that are put out -/

/-- The text of an identifier is one. -/
def Ident.Genuine (ident : Ident) : Prop := Terminal.IsIdent ident.text.toList

/-- Whether an identifier is raw, a name behind `r#`. -/
def Ident.isRaw (ident : Ident) : Bool := ['r', '#'].isPrefixOf ident.text.toList

mutual

/-- The raw identifiers of a tree behind `front` on its level that are put under the
namespace root. -/
def Tree.rootedRaws (front : Forest) : Tree → List Ident
  | .token (.ident ident) => if ident.isRaw && front.namespaces then [ident] else []
  | .token _ => []
  | .group _ inner _ => Forest.rootedRaws [] inner

/-- The raw identifiers among the trees behind `front` on their level, at any depth, that
are put under the namespace root. -/
def Forest.rootedRaws (front : Forest) : Forest → List Ident
  | [] => []
  | tree :: rest => tree.rootedRaws front ++ Forest.rootedRaws (front ++ [tree]) rest

end

theorem Forest.isRaw_of_mem_rootedRaws {ident : Ident} :
    (trees : Forest) → {front : Forest} → ident ∈ Forest.rootedRaws front trees →
      ident.isRaw = true
  | [], _, h => by cases h
  | .token token :: rest, front, h => by
    rcases List.mem_append.mp h with h | h
    · cases token with
      | ident other =>
        obtain ⟨hraw, hmem⟩ := List.mem_ite_nil_right.mp h
        obtain rfl := List.mem_singleton.mp hmem
        exact (Bool.and_eq_true_iff.mp hraw).1
      | punct | literal => cases h
    · exact isRaw_of_mem_rootedRaws rest h
  | .group _ inner _ :: rest, front, h => by
    rcases List.mem_append.mp h with h | h
    · exact isRaw_of_mem_rootedRaws inner h
    · exact isRaw_of_mem_rootedRaws rest h
termination_by trees => sizeOf trees

/-- All identifiers among trees, at any depth, are such that `p`. -/
def Forest.ForallIdent (p : Ident → Prop) (trees : Forest) : Prop :=
  ∀ ident, .token (.ident ident) ∈ Forest.events trees → p ident

namespace Forest

variable {p : Ident → Prop}

theorem ForallIdent.imp {q : Ident → Prop} {trees : Forest} (h : ForallIdent p trees)
    (himp : ∀ ident, p ident → q ident) : ForallIdent q trees :=
  fun ident hmem => himp ident (h ident hmem)

theorem forallIdent_append {front back : Forest} :
    ForallIdent p (front ++ back) ↔ ForallIdent p front ∧ ForallIdent p back := by
  simp only [ForallIdent, events_append, List.mem_append, or_imp, forall_and]

theorem forallIdent_cons {tree : Tree} {rest : Forest} :
    ForallIdent p (tree :: rest) ↔ ForallIdent p [tree] ∧ ForallIdent p rest := by
  rw [← List.singleton_append, forallIdent_append]

theorem forallIdent_nil : ForallIdent p [] := nofun

theorem forallIdent_ident {ident : Ident} : ForallIdent p [.ident ident] ↔ p ident := by
  simp [ForallIdent, Forest.events, Tree.events]

theorem forallIdent_of_ident?_eq_none {token : Token} (h : (Tree.token token).ident? = none) :
    ForallIdent p [.token token] := by
  intro ident hmem
  obtain rfl : token = .ident ident := by simpa [Forest.events, Tree.events, eq_comm] using hmem
  cases h

theorem forallIdent_regroup {delimiter : Delimiter} {inner : Forest} {span : Span} :
    ForallIdent p (Qualifier.regroup delimiter inner span) ↔ ForallIdent p inner := by
  unfold Qualifier.regroup
  split
  · exact Iff.rfl
  · simp [ForallIdent, Forest.events, Tree.events]

theorem forallIdent_held (state : State) : ForallIdent p state.held := by
  cases state with
  | dollar | dollarTick => simp [ForallIdent, State.held, Forest.events, Tree.events]
  | normal | afterColon | afterPound | afterTick => exact forallIdent_nil

end Forest

/-- A scope in which every name stands for a path of genuine identifiers. -/
def Scope.Genuine (scope : Scope) : Prop :=
  ∀ {name : String} {binding : Binding}, scope.lookup? name = some binding →
    Forest.ForallIdent Ident.Genuine binding.path.trees

namespace Ident

variable {ident : Ident} {root : String}

theorem isName_of_not_isRaw (h : ident.Genuine) (hraw : ident.isRaw = false) :
    Terminal.IsName ident.text.toList := by
  rcases h with h | ⟨name, -, htext⟩
  · exact h
  · simp [isRaw, htext] at hraw

/-- A name under a root that is a name is an identifier. -/
theorem genuine_under (h : Terminal.IsName ident.text.toList)
    (hroot : Terminal.IsName root.toList) : (ident.under root).Genuine := by
  rw [Genuine, under, String.toList_append]
  exact .inl (hroot.append h.forall_mem)

/-- A raw identifier under a root is none: its `#` can stand neither inside a name nor
anywhere else than behind an `r` in front. -/
theorem not_genuine_under (h : ident.isRaw = true) (hroot : Terminal.IsName root.toList) :
    ¬ (ident.under root).Genuine := by
  obtain ⟨name, htext⟩ : ∃ name, 'r' :: '#' :: name = ident.text.toList :=
    List.isPrefixOf_iff_prefix.mp h
  rw [Genuine, under, String.toList_append, ← htext]
  rintro (hname | ⟨other, -, heq⟩)
  · have hpound := hname.forall_mem '#' (by simp)
    exact absurd hpound (by decide)
  · cases hchars : root.toList with
    | nil =>
      rw [hchars] at hroot
      exact hroot
    | cons c rest =>
      rw [hchars] at hroot heq
      cases rest with
      | nil => simp at heq
      | cons d rest =>
        obtain rfl : d = '#' := by simp_all
        exact absurd (hroot.2 '#' (by simp)) (by decide)

end Ident

namespace Qualifier

variable {scope : Scope} {root : String} {p : Ident → Prop}

theorem Tracked.rootedRaws_eq_nil {front : Forest} {state : State} {events : List Event}
    (h : Tracked front state events) (hstate : ∀ held, state ≠ .dollar held) (token : Token) :
    (Tree.token token).rootedRaws front = [] := by
  have hnamespaces : front.namespaces = false := by
    rw [← Bool.not_eq_true, ← h.dollar]
    rintro ⟨held, heq⟩
    exact hstate held heq
  cases token <;> simp [Tree.rootedRaws, hnamespaces]

/-- A token that is no identifier puts out none. -/
theorem forallIdent_namespacing_of_ident?_eq_none (state : State) {token : Token}
    (h : (Tree.token token).ident? = none) :
    Forest.ForallIdent p (namespacing scope root state token).out := by
  have htoken : Forest.ForallIdent p (state.held ++ [.token token]) :=
    Forest.forallIdent_append.mpr
      ⟨Forest.forallIdent_held state, Forest.forallIdent_of_ident?_eq_none h⟩
  have htreated : Treated ⟨scope, some root⟩ state token (namespacing scope root state token) :=
    treated_namespacing ⟨scope, some root⟩ state token rfl
  generalize namespacing scope root state token = step at htreated ⊢
  cases htreated with
  | kept same =>
    rw [← same] at htoken
    exact (Forest.forallIdent_append.mp htoken).1
  | dollar _ _ => exact Forest.forallIdent_of_ident?_eq_none h
  | substituted | name | lifetime => cases h

/-- The identifiers that a token puts out are identifiers, but for a raw one that is put
under the namespace root. -/
theorem Tracked.forallIdent_namespacing {front : Forest} {state : State} {token : Token}
    {events : List Event} (h : Tracked front state (.token token :: events))
    (hr : Readable (.token token :: events)) (hroot : Terminal.IsName root.toList)
    (hscope : scope.Genuine) (hp : ∀ ident : Ident, ident.Genuine → p ident) :
    Forest.ForallIdent p (namespacing scope root state token).out ↔
      ∀ ident ∈ (Tree.token token).rootedRaws front, p (ident.under root) := by
  cases token with
  | punct | literal =>
    refine iff_of_true ?_ (List.forall_mem_nil _)
    exact forallIdent_namespacing_of_ident?_eq_none state rfl
  | ident ident =>
    have hident : ident.Genuine := by
      cases hr with
      | ident isIdent _ => exact isIdent
    cases state with
    | dollar held =>
      have hnamespaces : front.namespaces = true := h.dollar.mp ⟨held, rfl⟩
      have hout : Forest.ForallIdent p
          (namespacing scope root (.dollar held) (.ident ident)).out ↔ p (ident.under root) :=
        Forest.forallIdent_ident
      rw [hout, Tree.rootedRaws, hnamespaces, Bool.and_true]
      split
      · simp only [List.forall_mem_singleton]
      · next hraw =>
        have hname := Ident.isName_of_not_isRaw hident (Bool.eq_false_iff.mpr hraw)
        exact iff_of_true (hp _ (Ident.genuine_under hname hroot)) (List.forall_mem_nil _)
    | dollarTick held tick =>
      obtain ⟨name, after, heq, hname⟩ := h.tick held tick rfl
      cases heq
      rw [h.rootedRaws_eq_nil (by simp)]
      refine iff_of_true ?_ (List.forall_mem_nil _)
      refine Forest.forallIdent_cons.mpr ⟨Forest.forallIdent_of_ident?_eq_none rfl, ?_⟩
      exact Forest.forallIdent_ident.mpr (hp _ (Ident.genuine_under hname hroot))
    | normal =>
      rw [h.rootedRaws_eq_nil (by simp)]
      refine iff_of_true ?_ (List.forall_mem_nil _)
      simp only [namespacing, plain, substitute]
      split
      · next binding hlookup => exact (hscope hlookup).imp hp
      · exact Forest.forallIdent_ident.mpr (hp ident hident)
    | afterColon | afterPound | afterTick =>
      rw [h.rootedRaws_eq_nil (by simp)]
      exact iff_of_true (Forest.forallIdent_ident.mpr (hp ident hident)) (List.forall_mem_nil _)

/-- What can be said of all identifiers can be said of those that a level puts out, if it
holds of the raw ones that are put under the namespace root. -/
theorem forallIdent_level (hroot : Terminal.IsName root.toList)
    (hscope : scope.Genuine) (hp : ∀ ident : Ident, ident.Genuine → p ident) :
    (trees : Forest) → {front : Forest} → {state : State} → {more : List Event} →
    Tracked front state (Forest.events trees ++ more) → Readable (Forest.events trees ++ more) →
    (Forest.ForallIdent p (level ⟨scope, some root⟩ state trees) ↔
      ∀ ident ∈ Forest.rootedRaws front trees, p (ident.under root))
  | [], front, state, more, _, _ => by
    rw [level]
    exact iff_of_true (Forest.forallIdent_held state) (List.forall_mem_nil _)
  | .token token :: rest, front, state, more, h, hr => by
    have hrest := forallIdent_level hroot hscope hp rest (h.step hr scope root) hr.tail
    rw [level_token, Forest.forallIdent_append, Forest.rootedRaws, List.forall_mem_append, hrest,
      h.forallIdent_namespacing hr hroot hscope hp]
  | .group delimiter inner span :: rest, front, state, more, h, hr => by
    rw [Forest.events_group_append] at hr
    have hinner := forallIdent_level hroot hscope hp inner (tracked_start _) hr.tail
    have hafresh : (Tree.group delimiter inner span).settles = true := rfl
    have hrest := forallIdent_level hroot hscope hp rest (tracked_of_settles front hafresh _)
      hr.tail.of_append.tail
    rw [level, group, Forest.forallIdent_append, Forest.forallIdent_append,
      Forest.forallIdent_regroup, hinner, hrest, Forest.rootedRaws, Tree.rootedRaws,
      List.forall_mem_append]
    exact and_iff_right (Forest.forallIdent_held state)
termination_by trees => sizeOf trees

end Qualifier

end Qualify
