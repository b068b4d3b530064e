import Qualify.Proofs.Qualifier.Level

/-!
# Looking ahead of a `$`

With namespacing on, the automaton of a level holds a `$` back, and a tick behind it,
until the next tree decides what becomes of them. Nothing has to be held back where the
next trees can be seen: `Qualifier.ahead` scans a level with the plain states only, and
says at each `$` what it and the trees behind it come to. The two put out the same trees
(`level_eq_ahead`); so what is held back is never lost and never put out twice.

## Main definitions

- `Ident.under` — a name under the namespace root
- `Qualifier.ahead` — a level qualified by looking ahead of each `$`
-/

namespace Qualify

/-- A name under the namespace root `root`. -/
def Ident.under (root : String) (ident : Ident) : Ident :=
  { ident with text := root ++ ident.text }

namespace Qualifier

/-- Qualify the names of a level under the namespace root `root`, from a plain state on. A
`$` that no `#` makes pass through is judged by the trees behind it: of `$$` the second
one is put out; `$name` and `$'name` become names under the root, the tick joint to its
name; behind a `$'` without a name the next token takes the plain step, even if it is a
`$`; and any other `$` stays. Every other token takes the plain step. -/
def ahead (scope : Scope) (root : String) (state : State) : Forest → Forest
  | [] => []
  | .group delimiter inner span :: rest =>
    regroup delimiter (ahead scope root .normal inner) span ++ ahead scope root .normal rest
  | .token token :: rest =>
    if (Tree.token token).isPunct "$" ∧ state ≠ .afterPound then
      match rest with
      | .token (.ident ident) :: rest => .ident (ident.under root) :: ahead scope root .normal rest
      | .token (.punct mark) :: rest =>
        if mark.text = "$" then .punct mark :: ahead scope root .normal rest
        else if mark.text = "'" then
          match rest with
          | .token (.ident ident) :: rest =>
            .punct { mark with spacing := .joint } ::
              .ident (ident.under root) :: ahead scope root .normal rest
          | .token next :: rest =>
            let step := plain scope .normal next
            .token token :: .punct mark :: (step.out ++ ahead scope root step.state rest)
          | rest => .token token :: .punct mark :: ahead scope root .normal rest
        else .token token :: ahead scope root .normal (.token (.punct mark) :: rest)
      | rest => .token token :: ahead scope root .normal rest
    else
      let step := plain scope state token
      step.out ++ ahead scope root step.state rest

variable {scope : Scope} {root : String} {state : State}

/-! ### Steps under a namespace root -/

theorem level_token (token : Token) (rest : Forest) :
    level ⟨scope, some root⟩ state (.token token :: rest) =
      (namespacing scope root state token).out ++
        level ⟨scope, some root⟩ (namespacing scope root state token).state rest := by
  rw [level]
  rfl

/-- Where nothing is held back, a token that is no `$`, or passes through, takes the plain
step. -/
theorem namespacing_eq_plain {token : Token} (hheld : state.held = [])
    (h : ¬((Tree.token token).isPunct "$" = true ∧ state ≠ .afterPound)) :
    namespacing scope root state token = plain scope state token := by
  cases state with
  | dollar | dollarTick => cases hheld
  | afterPound => rfl
  | normal | afterColon | afterTick =>
    cases token with
    | ident | literal => rfl
    | punct mark =>
      have hmark : mark.text ≠ "$" := by
        intro hdollar
        exact h ⟨by simp [Tree.isPunct, hdollar], by simp⟩
      simp [namespacing, hmark]

/-- A `$` that does not pass through is held back. -/
theorem exists_held_of_dollar {token : Token} (hheld : state.held = [])
    (h : (Tree.token token).isPunct "$" = true ∧ state ≠ .afterPound) :
    ∃ held, token = .punct held ∧ ∀ rest, level ⟨scope, some root⟩ state (.token token :: rest) =
      level ⟨scope, some root⟩ (.dollar held) rest := by
  obtain ⟨hdollar, hstate⟩ := h
  cases token with
  | ident | literal => cases hdollar
  | punct held =>
    have htext : held.text = "$" := by simpa [Tree.isPunct] using hdollar
    refine ⟨held, rfl, fun rest => ?_⟩
    have hstep : namespacing scope root state (.punct held) = ⟨[], .dollar held⟩ := by
      cases state with
      | dollar | dollarTick => cases hheld
      | afterPound => exact absurd rfl hstate
      | normal | afterColon | afterTick => simp [namespacing, htext]
    rw [level_token, hstep]
    rfl

/-- A level goes on afresh, behind what was held back, where no token comes next. -/
theorem level_of_no_token {rest : Forest} (h : ∀ token after, rest ≠ .token token :: after) :
    level ⟨scope, some root⟩ state rest =
      state.held ++ level ⟨scope, some root⟩ .normal rest := by
  cases rest with
  | nil => simp [level, State.held]
  | cons tree after =>
    cases tree with
    | token token => exact absurd rfl (h token after)
    | group delimiter inner span => simp [level, State.held]

/-- Behind a `$` that is held back, any token but a name, a `$` and a tick goes on
afresh. -/
theorem level_dollar_of_other {held : Punct} {rest : Forest}
    (hident : ∀ ident after, rest ≠ .token (.ident ident) :: after)
    (hmark : ∀ mark after, rest = .token (.punct mark) :: after →
      mark.text ≠ "$" ∧ mark.text ≠ "'") :
    level ⟨scope, some root⟩ (.dollar held) rest =
      .punct held :: level ⟨scope, some root⟩ .normal rest := by
  cases rest with
  | nil => exact level_of_no_token (by simp)
  | cons tree after =>
    cases tree with
    | group delimiter inner span => exact level_of_no_token (by simp)
    | token token =>
      rw [level_token, level_token]
      cases token with
      | ident ident => exact absurd rfl (hident ident after)
      | literal literal => rfl
      | punct mark =>
        obtain ⟨hdollar, htick⟩ := hmark mark after rfl
        simp [namespacing, release, hdollar, htick]

theorem level_dollar_tick {held tick : Punct} {rest : Forest} (h : tick.text = "'") :
    level ⟨scope, some root⟩ (.dollar held) (.token (.punct tick) :: rest) =
      level ⟨scope, some root⟩ (.dollarTick held tick) rest := by
  rw [level_token]
  simp [namespacing, h]

/-- Behind a `$` and a tick that are held back, a token that is no name takes the plain
step. -/
theorem level_dollarTick_token {held tick : Punct} {next : Token} {rest : Forest}
    (h : ∀ ident, next ≠ .ident ident) :
    level ⟨scope, some root⟩ (.dollarTick held tick) (.token next :: rest) =
      .punct held :: .punct tick :: ((plain scope .normal next).out ++
        level ⟨scope, some root⟩ (plain scope .normal next).state rest) := by
  rw [level_token]
  cases next with
  | ident ident => exact absurd rfl (h ident)
  | punct mark => rfl
  | literal literal => rfl

/-! ### Whole levels -/

/-- Holding back and looking ahead put out the same trees. -/
theorem level_eq_ahead (hheld : state.held = []) (trees : Forest) :
    level ⟨scope, some root⟩ state trees = ahead scope root state trees := by
  have hnormal : State.normal.held = [] := rfl
  -- One case for each thing that can become of a `$`.
  fun_induction ahead scope root state trees with
  | case1 state => rw [level, hheld]
  | case2 state delimiter inner span rest ihinner ihrest =>
    rw [level, group, hheld, ihinner hnormal, ihrest hnormal]
    rfl
  | case3 state token hdollar ident rest ih =>
    obtain ⟨held, rfl, hlevel⟩ := exists_held_of_dollar hheld hdollar
    rw [hlevel, level_token, ← ih hnormal]
    rfl
  | case4 state token hdollar mark rest hmark ih =>
    obtain ⟨held, rfl, hlevel⟩ := exists_held_of_dollar hheld hdollar
    rw [hlevel, level_token, namespacing, if_pos hmark, ← ih hnormal]
    rfl
  | case5 state token hdollar mark hmark htick ident rest ih =>
    obtain ⟨held, rfl, hlevel⟩ := exists_held_of_dollar hheld hdollar
    rw [hlevel, level_dollar_tick htick, level_token, ← ih hnormal, namespacing, ← htick]
    rfl
  | case6 state token hdollar mark hmark htick next rest hnext step ih =>
    obtain ⟨held, rfl, hlevel⟩ := exists_held_of_dollar hheld hdollar
    rw [hlevel, level_dollar_tick htick, level_dollarTick_token hnext,
      ih (held_plain scope next hnormal)]
  | case7 state token hdollar mark hmark htick rest hident hnext ih =>
    obtain ⟨held, rfl, hlevel⟩ := exists_held_of_dollar hheld hdollar
    rw [hlevel, level_dollar_tick htick, level_of_no_token hnext, ih hnormal]
    rfl
  | case8 state token hdollar mark rest hmark htick ih =>
    obtain ⟨held, rfl, hlevel⟩ := exists_held_of_dollar hheld hdollar
    rw [hlevel, level_dollar_of_other (by simp) (by simp [hmark, htick]), ih hnormal]
  | case9 state token hdollar rest hident hmark ih =>
    obtain ⟨held, rfl, hlevel⟩ := exists_held_of_dollar hheld hdollar
    rw [hlevel, level_dollar_of_other hident fun mark after h => (hmark mark after h).elim,
      ih hnormal]
  | case10 state token rest hdollar step ih =>
    rw [level_token, namespacing_eq_plain hheld hdollar, ih (held_plain scope token hheld)]

/-- Where no `$` stands at any depth, namespacing changes nothing. -/
theorem level_eq_level_of_no_dollar : (state : State) → (trees : Forest) → state.held = [] →
    (∀ mark, .token (.punct mark) ∈ Forest.events trees → mark.text ≠ "$") →
      level ⟨scope, some root⟩ state trees = level ⟨scope, none⟩ state trees
  | state, [], _, _ => by rw [level, level]
  | state, .token token :: rest, hheld, hfree => by
    have htoken : ¬((Tree.token token).isPunct "$" = true ∧ state ≠ .afterPound) := by
      rintro ⟨hdollar, -⟩
      cases token with
      | ident | literal => cases hdollar
      | punct mark =>
        exact hfree mark (by simp [Forest.events, Tree.events])
          (by simpa [Tree.isPunct] using hdollar)
    have hrest := level_eq_level_of_no_dollar (plain scope state token).state rest
      (held_plain scope token hheld) fun mark hmark => hfree mark (by simp [Forest.events, hmark])
    rw [level_token, namespacing_eq_plain hheld htoken, hrest, level]
    rfl
  | state, .group delimiter inner span :: rest, _, hfree => by
    have hinner := level_eq_level_of_no_dollar .normal inner rfl
      fun mark hmark => hfree mark (by simp [Forest.events, Tree.events, hmark])
    have hrest := level_eq_level_of_no_dollar .normal rest rfl
      fun mark hmark => hfree mark (by simp [Forest.events, hmark])
    rw [level, group, hinner, hrest, level, group]

/-- With namespacing on, a body is qualified by looking ahead of each `$`. Where there is
none, it is qualified as with namespacing off. -/
theorem qualify_eq_ahead (scope : Scope) (root : String) (trees : Forest) :
    qualify ⟨scope, some root⟩ trees = ahead scope root .normal trees ∧
      ((∀ mark, .token (.punct mark) ∈ Forest.events trees → mark.text ≠ "$") →
        qualify ⟨scope, some root⟩ trees = qualify ⟨scope, none⟩ trees) := by
  have hnormal : State.normal.held = [] := rfl
  rw [qualify_eq_level, qualify_eq_level]
  exact ⟨level_eq_ahead hnormal trees, level_eq_level_of_no_dollar .normal trees hnormal⟩

/-- In `$'$x #$x $'($) $'x` only the last name is namespaced: the second `$` takes the plain
step, the third one passes through, and a group ends what was held back. -/
theorem qualify_eq_ahead_ticks :
    let path : Path := [.name { text := "a" }, .name { text := "x" }]
    let scope : Scope := ⟨[⟨{ text := "x" }, path⟩], []⟩
    let mark (text : String) : Tree := .punct { text }
    let name (text : String) : Tree := .ident { text }
    let plain : Forest := [mark "'", name "x", mark "#", name "x"]
    let trees : Forest := [mark "$", mark "'", mark "$", name "x", mark "#", mark "$", name "x",
      mark "$", mark "'", .group .paren [mark "$"] {}, mark "$", mark "'", name "x"]
    qualify ⟨scope, some "n_"⟩ trees =
        [mark "$", mark "'", mark "$"] ++ path.trees ++ [mark "#", mark "$"] ++ path.trees ++
          [mark "$", mark "'", .group .paren [mark "$"] {},
            .punct { text := "'", spacing := .joint }, name "n_x"] ∧
      (∀ mark, .token (.punct mark) ∈ Forest.events plain → mark.text ≠ "$") ∧
      qualify ⟨scope, some "n_"⟩ plain = qualify ⟨scope, none⟩ plain := by
  intro path scope mark name plain trees
  have hfree : ∀ mark, .token (.punct mark) ∈ Forest.events plain → mark.text ≠ "$" := by
    simp [plain, mark, name, Forest.events, Tree.events]
  refine ⟨?_, hfree, (qualify_eq_ahead scope "n_" plain).2 hfree⟩
  rw [(qualify_eq_ahead scope "n_" trees).1]
  cbv

end Qualifier

end Qualify
