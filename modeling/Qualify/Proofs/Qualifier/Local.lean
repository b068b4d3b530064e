import Qualify.Proofs.Qualifier.Level

/-!
# Qualifying is local

What stands on a level reaches the trees behind it only through the marks `:`, `#`, `'`
and `$`. Behind any other tree the level goes on afresh, whatever was in front of it: a
token of that kind ends every state, those that hold something back included
(`state_step_of_settles`), and so does a group. Hence a level may be cut behind such a tree
and its parts qualified one by one (`qualify_append`).

## Main definitions

- `Tree.settles` — a tree behind which a level goes on afresh
-/

namespace Qualify

/-- Whether a level goes on afresh behind a tree: the tree is an identifier, a literal, a
group, or a mark other than `:`, `#`, `'` and `$`. -/
def Tree.settles : Tree → Bool
  | .token (.punct mark) => !([":", "#", "'", "$"].contains mark.text)
  | _ => true

theorem Tree.settles_punct {mark : Punct} : (Tree.punct mark).settles = true ↔
    mark.text ≠ ":" ∧ mark.text ≠ "#" ∧ mark.text ≠ "'" ∧ mark.text ≠ "$" := by
  simp [Tree.settles]

namespace Qualifier

theorem afterPunct_of_settles {mark : Punct} (h : (Tree.punct mark).settles = true)
    (state : State) : state.afterPunct mark = .normal := by
  obtain ⟨hcolon, hpound, htick, -⟩ := Tree.settles_punct.mp h
  simp [State.afterPunct, hcolon, hpound, htick]

theorem state_plain_of_settles (scope : Scope) (state : State) {token : Token}
    (h : (Tree.token token).settles = true) : (plain scope state token).state = .normal := by
  cases token with
  | ident ident => cases state <;> rfl
  | literal literal => cases state <;> rfl
  | punct mark =>
    have hafter := afterPunct_of_settles h state
    cases state with
    | afterPound => rfl
    | normal | afterColon | afterTick | dollar | dollarTick => exact hafter

theorem state_namespacing_of_settles (scope : Scope) (root : String) (state : State)
    {token : Token} (h : (Tree.token token).settles = true) :
    (namespacing scope root state token).state = .normal := by
  have hplain (state : State) := state_plain_of_settles scope state h
  cases token with
  | ident ident =>
    cases state with
    | dollar | dollarTick => rfl
    | normal | afterColon | afterPound | afterTick => exact hplain _
  | literal literal => cases state <;> exact hplain _
  | punct mark =>
    obtain ⟨-, -, htick, hdollar⟩ := Tree.settles_punct.mp h
    cases state with
    | dollar held =>
      rw [namespacing, if_neg hdollar, if_neg htick]
      exact hplain .normal
    | dollarTick held tick => exact hplain .normal
    | afterPound => exact hplain .afterPound
    | normal | afterColon | afterTick =>
      simp only [namespacing, if_neg hdollar]
      exact hplain _

/-- A token of that kind ends every state. -/
theorem state_step_of_settles (qualifier : Qualifier) (state : State) {token : Token}
    (h : (Tree.token token).settles = true) : (qualifier.step state token).state = .normal := by
  obtain ⟨scope, root⟩ := qualifier
  cases root with
  | none => exact state_plain_of_settles scope state h
  | some root => exact state_namespacing_of_settles scope root state h

theorem after_of_settles (qualifier : Qualifier) (state : State) (front : Forest) {tree : Tree}
    (h : tree.settles = true) : qualifier.after state (front ++ [tree]) = .normal := by
  rw [after_append]
  cases tree with
  | token token => exact qualifier.state_step_of_settles _ h
  | group delimiter inner span => rfl

/-- Qualifying is local: trees that are empty or end in an identifier, a literal, a group or
a mark other than `:`, `#`, `'` and `$` are qualified as if nothing followed, and what
follows as if nothing stood in front. -/
theorem qualify_append (scope : Scope) (config : Config) (front back : Forest)
    (h : ∀ tree, front.getLast? = some tree → tree.settles = true) :
    (ofScope scope config).qualify (front ++ back) =
      (ofScope scope config).qualify front ++ (ofScope scope config).qualify back := by
  generalize ofScope scope config = qualifier
  have hnormal : qualifier.after .normal front = .normal := by
    cases hlast : front.getLast? with
    | none =>
      rw [List.getLast?_eq_none_iff.mp hlast]
      rfl
    | some tree =>
      obtain ⟨before, rfl⟩ := List.getLast?_eq_some_iff.mp hlast
      exact qualifier.after_of_settles .normal before (h tree hlast)
  have hheld : (qualifier.after .normal front).held = [] := by
    rw [hnormal]
    rfl
  simp only [qualify_eq_level]
  rw [level_append qualifier back hheld, hnormal]

/-- A comma lets go of a `$` and a tick that are held back, and the name behind it is bare. -/
theorem qualify_append_held :
    let path : Path := [.name { text := "a" }, .name { text := "x" }]
    let scope : Scope := ⟨[⟨{ text := "x" }, path⟩], []⟩
    let config : Config := { namespacing := true }
    let front : Forest := [.punct { text := "$" }, .punct { text := "'" }, .punct { text := "," }]
    let back : Forest := [.ident { text := "x" }]
    (∀ tree, front.getLast? = some tree → tree.settles = true) ∧
      (ofScope scope config).qualify (front ++ back) =
        (ofScope scope config).qualify front ++ (ofScope scope config).qualify back ∧
      (ofScope scope config).qualify front = front ∧
      (ofScope scope config).qualify back = path.trees := by
  intro path scope config front back
  have hlast : ∀ tree, front.getLast? = some tree → tree.settles = true := by
    rintro tree heq
    cases heq
    decide
  refine ⟨hlast, qualify_append scope config front back hlast, ?_, ?_⟩
  · decide +kernel
  · decide +kernel

/-- Each of the four marks reaches the name behind it. -/
example :
    let scope : Scope := ⟨[⟨{ text := "x" }, [.name { text := "a" }]⟩], []⟩
    let qualifier := ofScope scope { namespacing := true }
    ∀ text ∈ [":", "#", "'", "$"],
      let mark : Tree := .punct { text, spacing := .joint }
      let name : Tree := .ident { text := "x" }
      qualifier.qualify ([mark] ++ [name]) ≠
        qualifier.qualify [mark] ++ qualifier.qualify [name] := by
  decide +kernel

end Qualifier

end Qualify
