import Qualify.Proofs.Name.Format
import Qualify.Proofs.Qualifier.Rooted

/-!
# Names under different seeds

A seed is written into every name that a `$` puts under the namespace root: each of its
characters that no name can hold becomes `_`, and one more `_` divides it from the name
(`seedMark`). Neither step can be undone from the name alone. Different seeds may be written
alike, and the `_` that divides them from a name may stand in both. A name under one seed is
a name under another exactly if it starts with what the mark of the other seed has more
(`Covers`). Whether two seeds have such names at all can be read off their marks
(`exists_covers_iff`): one of them must start with the other, and what it has more must be
such that a name can start with it.

## Main definitions

- `Config.Makes` — the identifier that `$` and a name come to
- `Config.Covers` — a name under one seed is a name under another
- `Config.reaches` — whether some name under one seed is a name under another
-/

namespace Qualify

/-- Behind characters that a name can hold a name is one as well, unless they start with a
digit. -/
theorem Terminal.IsName.prepend {run name : List Char} (h : IsName name)
    (hrun : ∀ c ∈ run, isName c = true) (hdigit : Stops Char.isDigit run) :
    IsName (run ++ name) := by
  cases run with
  | nil => exact h
  | cons c rest =>
    obtain ⟨hc, hrest⟩ := List.forall_mem_cons.mp hrun
    have hstart : isNameStart c = true := by
      simpa [isName, isNameStart, Char.isAlphanum, stops_cons.mp hdigit] using hc
    exact ⟨hstart, List.forall_mem_append.mpr ⟨hrest, h.forall_mem⟩⟩

/-- No identifier starts with a digit. -/
theorem Ident.Genuine.stops {ident : Ident} (h : ident.Genuine) :
    Terminal.Stops Char.isDigit ident.text.toList := by
  rcases h with h | ⟨name, -, htext⟩
  · cases htext : ident.text.toList with
    | nil => exact Terminal.stops_nil _
    | cons c rest =>
      rw [htext] at h
      exact Terminal.stops_cons.mpr (Terminal.not_isDigit_of_isNameStart h.1)
  · rw [htext]
    exact Terminal.stops_cons.mpr (by decide)

/-- A `$` is held back only where nothing else is and no `#` makes it pass through. -/
theorem Qualifier.held_eq_nil_of_dollar {scope : Scope} {root : String} {state : State}
    {dollar : Punct} (h : (namespacing scope root state (.punct dollar)).state = .dollar dollar) :
    state.held = [] ∧ (Tree.punct dollar).isPunct "$" = true ∧ state ≠ .afterPound := by
  rcases state_namespacing_punct scope root state dollar with
    ⟨-, htext, hheld, hstate⟩ | ⟨held, hnext, -⟩ | ⟨hheld, -⟩
  · exact ⟨hheld, by simp [Tree.isPunct, htext], hstate⟩
  · rw [h] at hnext
    cases hnext
  · rw [h] at hheld
    cases hheld

namespace Config

variable {config : Config} {seed other : String}

/-! ### What a `$` and a name come to -/

/-- The identifier that `$` and the name `ident` come to: wherever the `$` is held back, it is
put out in their place, whatever is in scope. -/
def Makes (config : Config) (ident made : Ident) : Prop :=
  ∀ (scope : Scope) (front back : Forest) (dollar : Punct),
    let qualifier := Qualifier.ofScope scope config
    qualifier.after .normal (front ++ [.punct dollar]) = .dollar dollar →
      qualifier.qualify (front ++ .punct dollar :: .ident ident :: back) =
        qualifier.qualify front ++ .ident made :: qualifier.qualify back

theorem makes_under (hon : config.namespacing = true) (ident : Ident) :
    config.Makes ident (ident.under config.namespaceRoot) := by
  intro scope front back dollar qualifier hafter
  have hqualifier : qualifier = ⟨scope, some config.namespaceRoot⟩ := by
    simp only [qualifier, Qualifier.ofScope, if_pos hon]
  rw [hqualifier] at hafter ⊢
  rw [Qualifier.after_concat] at hafter
  obtain ⟨hheld, hdollar⟩ := Qualifier.held_eq_nil_of_dollar hafter
  obtain ⟨held, -, hlevel⟩ := Qualifier.exists_held_of_dollar hheld hdollar
  simp only [Qualifier.qualify_eq_level]
  rw [Qualifier.level_append _ _ hheld, hlevel, Qualifier.level_token]
  rfl

theorem Makes.eq_under (hon : config.namespacing = true) {ident made : Ident}
    (h : config.Makes ident made) : made = ident.under config.namespaceRoot := by
  have hmade := h ⟨[], []⟩ [] [] { text := "$" }
  have hunder := makes_under hon ident ⟨[], []⟩ [] [] { text := "$" }
  have hafter : (Qualifier.ofScope ⟨[], []⟩ config).after .normal
      [.punct { text := "$" }] = .dollar { text := "$" } := by
    simp only [Qualifier.ofScope, if_pos hon]
    rfl
  have heq := (hmade hafter).symm.trans (hunder hafter)
  simpa using heq

/-! ### Marks of seeds -/

/-- The name `ident` under `seed` is the name `name` under `other`, whose mark is the longer
one: `ident` starts with what the mark of `other` has more, and `name` follows. -/
def Covers (seed : String) (ident : Ident) (other : String) (name : Ident) : Prop :=
  ∃ more, seedMark other = seedMark seed ++ more ∧ ident.text.toList = more ++ name.text.toList

/-- Whether some name under `seed` is a name under `other`, whose mark is the longer one: the
mark of `other` starts with that of `seed` and does not go on with a digit. -/
def reaches (seed other : String) : Bool :=
  (seedMark seed).isPrefixOf (seedMark other) &&
    ((seedMark other).drop (seedMark seed).length).head?.all (!·.isDigit)

theorem reaches_iff : reaches seed other = true ↔
    ∃ more, seedMark other = seedMark seed ++ more ∧ Terminal.Stops Char.isDigit more := by
  have hstops (more : List Char) :
      more.head?.all (!·.isDigit) = true ↔ Terminal.Stops Char.isDigit more := by
    cases more <;> simp [Terminal.Stops]
  rw [reaches, Bool.and_eq_true, List.isPrefixOf_iff_prefix, hstops]
  constructor
  · rintro ⟨⟨more, hmore⟩, hdigit⟩
    rw [← hmore, List.drop_left] at hdigit
    exact ⟨more, hmore.symm, hdigit⟩
  · rintro ⟨more, hmore, hdigit⟩
    rw [hmore, List.drop_left]
    exact ⟨List.prefix_append _ _, hdigit⟩

/-- Whether some name under one seed covers a name under another can be read off the marks. -/
theorem exists_covers_iff :
    (∃ ident name : Ident, ident.Genuine ∧ name.Genuine ∧ Covers seed ident other name) ↔
      reaches seed other = true := by
  rw [reaches_iff]
  constructor
  · rintro ⟨ident, name, hident, -, more, hmore, htext⟩
    have hdigit := hident.stops
    rw [htext] at hdigit
    refine ⟨more, hmore, ?_⟩
    cases more with
    | nil => exact Terminal.stops_nil _
    | cons c rest => exact Terminal.stops_cons.mpr (Terminal.stops_cons.mp hdigit)
  · rintro ⟨more, hmore, hdigit⟩
    have hname : Terminal.IsName "x".toList := ⟨by decide, List.forall_mem_nil _⟩
    have hrun : ∀ c ∈ more, Terminal.isName c = true := by
      intro c hc
      have hmark : c ∈ seedMark other := by
        rw [hmore]
        exact List.mem_append_right _ hc
      exact isName_of_mem_seedMark hmark
    refine ⟨{ text := String.ofList more ++ "x" }, { text := "x" }, .inl ?_, .inl hname,
      more, hmore, ?_⟩
    · rw [String.toList_append, String.toList_ofList]
      exact hname.prepend hrun hdigit
    · rw [String.toList_append, String.toList_ofList]

/-! ### Equal names -/

theorem text_under_eq_iff {first second : Config} (hseed : first.seed = some seed)
    (hother : second.seed = some other) (hne : seed ≠ "") (hne' : other ≠ "") (x y : Ident) :
    (x.under first.namespaceRoot).text = (y.under second.namespaceRoot).text ↔
      Covers seed x other y ∨ Covers other y seed x := by
  rw [← String.toList_inj, Ident.under, Ident.under, String.toList_append, String.toList_append,
    toList_namespaceRoot hseed hne, toList_namespaceRoot hother hne', List.append_assoc,
    List.append_assoc, List.append_cancel_left_eq, List.append_eq_append_iff]
  rfl

/-- Names under two seeds, each put out for `$` and an identifier. Two of them are equal
exactly if one covers the other. No two are equal exactly if neither seed reaches the other:
with `_` for every character that no name can hold and one more `_` at the end, neither
seed starts with the other one, or only so that it goes on with a digit. -/
theorem seeds_apart_iff (first second : Config) (seed other : String)
    (hfirst : first.namespacing = true) (hsecond : second.namespacing = true)
    (hseed : first.seed = some seed) (hother : second.seed = some other)
    (hne : seed ≠ "") (hne' : other ≠ "") :
    (∀ x y : Ident, ∃ made made', first.Makes x made ∧ second.Makes y made' ∧
      (made.text = made'.text ↔ Covers seed x other y ∨ Covers other y seed x)) ∧
    ((∀ x y made made' : Ident, x.Genuine → y.Genuine → first.Makes x made →
        second.Makes y made' → made.text ≠ made'.text) ↔
      reaches seed other = false ∧ reaches other seed = false) := by
  have hequal := text_under_eq_iff hseed hother hne hne'
  refine ⟨fun x y => ⟨_, _, makes_under hfirst x, makes_under hsecond y, hequal x y⟩, ?_⟩
  rw [← Bool.not_eq_true, ← Bool.not_eq_true, ← exists_covers_iff, ← exists_covers_iff]
  constructor
  · intro happart
    constructor
    · rintro ⟨x, y, hx, hy, hcovers⟩
      exact happart x y _ _ hx hy (makes_under hfirst x) (makes_under hsecond y)
        ((hequal x y).mpr (.inl hcovers))
    · rintro ⟨y, x, hy, hx, hcovers⟩
      exact happart x y _ _ hx hy (makes_under hfirst x) (makes_under hsecond y)
        ((hequal x y).mpr (.inr hcovers))
  · rintro ⟨hfront, hback⟩ x y made made' hx hy hmade hmade' heq
    rw [hmade.eq_under hfirst, hmade'.eq_under hsecond] at heq
    rcases (hequal x y).mp heq with hcovers | hcovers
    · exact hfront ⟨x, y, hx, hy, hcovers⟩
    · exact hback ⟨y, x, hy, hx, hcovers⟩

/-- The seeds `v` and `v.1` keep all names apart, since no name starts with the digit; `v` and
`v-w` do not. -/
theorem seeds_apart_iff_digit :
    let config (seed : String) : Config := { namespacing := true, seed := some seed }
    let apart (seed other : String) : Prop := ∀ x y made made' : Ident, x.Genuine → y.Genuine →
      (config seed).Makes x made → (config other).Makes y made' → made.text ≠ made'.text
    (∀ seed ∈ ["v", "v.1", "v-w"],
        (config seed).namespacing = true ∧ (config seed).seed = some seed ∧ seed ≠ "") ∧
      apart "v" "v.1" ∧ ¬ apart "v" "v-w" := by
  intro config apart
  refine ⟨by decide, ?_, ?_⟩
  · exact (seeds_apart_iff (config "v") (config "v.1") "v" "v.1" rfl rfl rfl rfl
      (by decide) (by decide)).2.mpr (by decide +kernel)
  · intro happart
    have hreaches := (seeds_apart_iff (config "v") (config "v-w") "v" "v-w" rfl rfl rfl rfl
      (by decide) (by decide)).2.mp happart
    exact absurd hreaches (by decide +kernel)

/-- Different seeds are not enough: `a.b` and `a_b` are written alike, and the name `b_x` under
`a` is the name `x` under `a_b`. -/
theorem seeds_collide :
    let config (seed : String) : Config := { namespacing := true, seed := some seed }
    let made (seed text : String) : Forest :=
      (Qualifier.ofScope ⟨[], []⟩ (config seed)).qualify [.punct { text := "$" }, .ident { text }]
    (["a", "a.b", "a_b"].Nodup ∧ "" ∉ ["a", "a.b", "a_b"]) ∧
      (∀ text ∈ ["x", "b_x"], Terminal.ident? text.toList = some text.toList) ∧
      made "a.b" "x" = [.ident { text := "__quote_use_a_b_x" }] ∧
      made "a_b" "x" = [.ident { text := "__quote_use_a_b_x" }] ∧
      made "a" "b_x" = [.ident { text := "__quote_use_a_b_x" }] := by
  decide +kernel

end Config

end Qualify
