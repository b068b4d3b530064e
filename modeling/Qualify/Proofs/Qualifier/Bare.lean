import Qualify.Proofs.Qualifier.Verbatim

/-!
# Bare names

Whether a name is replaced can be told by looking back over its level. A name is bare
unless a `#` makes it pass through, the colons directly in front of it belong to a `::`,
or the tree in front of those colons is the tick of a lifetime; a colon or a tick that a
`#` makes pass through does not count. `after_eq_normal_iff` shows that the state of a
level says just that about the trees read so far. So a level is qualified by replacing
its bare names one by one (`level_eq_resolved`), and no state is needed to say which.

## Main definitions

- `Forest.actsAt` — a joint mark that is not passed through
- `Forest.Bare` — a name behind trees is bare
- `Forest.resolved` — a level with its bare names replaced
-/

namespace Qualify

namespace Forest

/-- Whether the tree at an index is the joint mark `text` and no `#` makes it pass
through. -/
def actsAt (text : String) (trees : Forest) (index : Nat) : Bool :=
  trees[index]?.any (·.isPunctSpaced text .joint) && !escapes (trees.take index)

/-- The index at which the run of colons at the end of trees starts. -/
def colonsStart (front : Forest) : Nat :=
  front.length - (front.reverse.takeWhile (Tree.isPunct ":")).length

/-- A name behind `front` on its level is bare: no `#` makes it pass through, no colon of
the run directly in front of it acts, and neither does a tick directly in front of that
run. -/
structure Bare (front : Forest) : Prop where
  notEscaped : front.escapes = false
  colons : ∀ index < front.length, front.colonsStart ≤ index → front.actsAt ":" index = false
  tick : ∀ index < front.length, index + 1 = front.colonsStart → front.actsAt "'" index = false

instance (front : Forest) : Decidable front.Bare :=
  decidable_of_iff
    (front.escapes = false ∧
      (∀ index < front.length, front.colonsStart ≤ index → front.actsAt ":" index = false) ∧
      ∀ index < front.length, index + 1 = front.colonsStart → front.actsAt "'" index = false)
    ⟨fun ⟨notEscaped, colons, tick⟩ => ⟨notEscaped, colons, tick⟩,
      fun bare => ⟨bare.notEscaped, bare.colons, bare.tick⟩⟩

end Forest

mutual

/-- What a tree behind `front` on its level comes to: a bare name that is bound gives way
to its path, a group is treated on its own, and every other tree stays. -/
def Tree.resolved (scope : Scope) (front : Forest) : Tree → Forest
  | .token (.ident ident) =>
    match scope.lookup? ident.text with
    | some binding => if front.Bare then binding.path.trees else [.ident ident]
    | none => [.ident ident]
  | .token token => [.token token]
  | .group delimiter inner span =>
    Qualifier.regroup delimiter (Forest.resolved scope [] inner) span

/-- What the trees behind `front` on their level come to, from left to right. -/
def Forest.resolved (scope : Scope) (front : Forest) : Forest → Forest
  | [] => []
  | tree :: rest => tree.resolved scope front ++ Forest.resolved scope (front ++ [tree]) rest

end

namespace Forest

/-! ### Looking back from one tree on -/

theorem lt_or_eq_of_lt_concat {front : Forest} {tree : Tree} {index : Nat}
    (h : index < (front ++ [tree]).length) : index < front.length ∨ index = front.length := by
  rw [List.length_append, List.length_singleton] at h
  omega

theorem actsAt_concat_of_lt (text : String) {front : Forest} (tree : Tree) {index : Nat}
    (h : index < front.length) : actsAt text (front ++ [tree]) index = actsAt text front index := by
  unfold actsAt
  rw [List.getElem?_append_left h, List.take_append_of_le_length (Nat.le_of_lt h)]

theorem actsAt_concat_length (text : String) (front : Forest) (tree : Tree) :
    actsAt text (front ++ [tree]) front.length =
      (tree.isPunctSpaced text .joint && !front.escapes) := by
  simp [actsAt]

theorem colonsStart_concat (front : Forest) (tree : Tree) :
    colonsStart (front ++ [tree]) =
      if tree.isPunct ":" then front.colonsStart else front.length + 1 := by
  unfold colonsStart
  rw [List.reverse_append, List.reverse_singleton, List.singleton_append, List.takeWhile_cons]
  split
  · simp only [List.length_append, List.length_cons, List.length_nil]
    omega
  · simp

theorem colonsStart_le (front : Forest) : front.colonsStart ≤ front.length :=
  Nat.sub_le _ _

/-- Where a `#` makes the next tree pass through, it stands last. -/
theorem exists_pound_of_escapes {front : Forest} (h : front.escapes = true) :
    ∃ before pound, front = before ++ [pound] ∧ pound.isPunct "#" = true := by
  induction front using List.reverseRecOn with
  | nil => cases h
  | append_singleton before pound _ =>
    rw [escapes_concat, Bool.and_eq_true] at h
    exact ⟨before, pound, rfl, h.1⟩

/-- Behind a tree that passes through a name is bare. The `#` in front of that tree ends
the run of colons, and is no tick. -/
theorem bare_concat_of_escapes {front : Forest} (h : front.escapes = true) (tree : Tree) :
    Bare (front ++ [tree]) := by
  have hlast (text : String) : actsAt text (front ++ [tree]) front.length = false := by
    rw [actsAt_concat_length, h]
    simp
  obtain ⟨before, pound, hfront, hpound⟩ := exists_pound_of_escapes h
  have hlength : front.length = before.length + 1 := by simp [hfront]
  have hstart : front.length ≤ colonsStart (front ++ [tree]) := by
    have hcolon := Declaration.isPunct_eq_false_of_isPunct ":" hpound (by decide)
    rw [colonsStart_concat]
    split
    · rw [hfront, colonsStart_concat, hcolon]
      simp
    · omega
  have htick : pound.isPunctSpaced "'" .joint = false := by
    have hmark := Declaration.isPunct_eq_false_of_isPunct "'" hpound (by decide)
    by_contra hspaced
    rw [Bool.not_eq_false] at hspaced
    exact Bool.false_ne_true (hmark.symm.trans (Declaration.isPunct_of_isPunctSpaced hspaced))
  refine ⟨?_, ?_, ?_⟩
  · rw [escapes_concat, h]
    simp
  · intro index hindex hle
    rcases lt_or_eq_of_lt_concat hindex with hlt | rfl
    · omega
    · exact hlast ":"
  · intro index hindex heq
    rcases lt_or_eq_of_lt_concat hindex with hlt | rfl
    · obtain rfl : index = before.length := by omega
      rw [actsAt_concat_of_lt _ _ hlt, hfront, actsAt_concat_length, htick]
      rfl
    · exact hlast "'"

/-- A colon keeps a name bare unless it is joint. -/
theorem bare_concat_colon {front : Forest} {tree : Tree} (h : front.escapes = false)
    (hcolon : tree.isPunct ":" = true) :
    Bare (front ++ [tree]) ↔ tree.isPunctSpaced ":" .joint = false ∧ front.Bare := by
  have hstart : colonsStart (front ++ [tree]) = front.colonsStart := by
    rw [colonsStart_concat, if_pos hcolon]
  have hle := colonsStart_le front
  have hlast : actsAt ":" (front ++ [tree]) front.length = tree.isPunctSpaced ":" .joint := by
    rw [actsAt_concat_length, h]
    simp
  constructor
  · intro hbare
    refine ⟨?_, h, ?_, ?_⟩
    · rw [← hlast]
      exact hbare.colons front.length (by simp) (by omega)
    · intro index hindex hrun
      rw [← actsAt_concat_of_lt ":" tree hindex]
      exact hbare.colons index (by simp; omega) (by omega)
    · intro index hindex heq
      rw [← actsAt_concat_of_lt "'" tree hindex]
      exact hbare.tick index (by simp; omega) (by omega)
  · rintro ⟨halone, hbare⟩
    refine ⟨?_, ?_, ?_⟩
    · rw [escapes_concat, Declaration.isPunct_eq_false_of_isPunct "#" hcolon (by decide)]
      rfl
    · intro index hindex hrun
      rcases lt_or_eq_of_lt_concat hindex with hlt | rfl
      · rw [actsAt_concat_of_lt _ _ hlt]
        exact hbare.colons index hlt (by omega)
      · rw [hlast, halone]
    · intro index _ heq
      have hlt : index < front.length := by omega
      rw [actsAt_concat_of_lt _ _ hlt]
      exact hbare.tick index hlt (by omega)

/-- Behind any other tree a name is bare unless the tree is a `#` or a joint tick. -/
theorem bare_concat_of_not_colon {front : Forest} {tree : Tree} (h : front.escapes = false)
    (hcolon : tree.isPunct ":" = false) :
    Bare (front ++ [tree]) ↔
      tree.isPunct "#" = false ∧ tree.isPunctSpaced "'" .joint = false := by
  have hstart : colonsStart (front ++ [tree]) = front.length + 1 := by
    rw [colonsStart_concat, hcolon, if_neg Bool.false_ne_true]
  have hescapes : escapes (front ++ [tree]) = tree.isPunct "#" := by
    rw [escapes_concat, h]
    simp
  have hlast : actsAt "'" (front ++ [tree]) front.length = tree.isPunctSpaced "'" .joint := by
    rw [actsAt_concat_length, h]
    simp
  constructor
  · intro hbare
    refine ⟨?_, ?_⟩
    · rw [← hescapes]
      exact hbare.notEscaped
    · rw [← hlast]
      exact hbare.tick front.length (by simp) hstart.symm
  · rintro ⟨hpound, htick⟩
    refine ⟨?_, ?_, ?_⟩
    · rw [hescapes, hpound]
    · intro index hindex hrun
      have hle := lt_or_eq_of_lt_concat hindex
      omega
    · intro index _ heq
      obtain rfl : index = front.length := by omega
      rw [hlast, htick]

end Forest

namespace Qualifier

variable {qualifier : Qualifier}

/-- A mark that is not passed through leads to `normal` exactly where it keeps a name
behind it bare. -/
theorem afterPunct_eq_normal_iff {front : Forest} {state : State} (mark : Punct)
    (h : front.escapes = false) (hstate : state = .normal ↔ front.Bare) :
    state.afterPunct mark = .normal ↔ Forest.Bare (front ++ [.punct mark]) := by
  by_cases hcolon : mark.text = ":"
  · rw [Forest.bare_concat_colon h (by simp [Tree.isPunct, hcolon]), State.afterPunct,
      if_pos hcolon]
    cases hspacing : mark.spacing with
    | joint => simp [Tree.isPunctSpaced, hcolon, hspacing]
    | alone => simp [Tree.isPunctSpaced, hspacing, hstate]
  · rw [Forest.bare_concat_of_not_colon h (by simp [Tree.isPunct, hcolon]), State.afterPunct,
      if_neg hcolon]
    by_cases hpound : mark.text = "#"
    · simp [Tree.isPunct, hpound]
    · by_cases htick : mark.text = "'" && mark.spacing = .joint
      · simp [Tree.isPunct, Tree.isPunctSpaced, hpound, htick]
      · simp [Tree.isPunct, Tree.isPunctSpaced, hpound, htick]

/-- The state of a level behind trees is `normal` exactly where a name is bare. -/
theorem after_eq_normal_iff (hroot : qualifier.root = none) (front : Forest) :
    qualifier.after .normal front = .normal ↔ Forest.Bare front := by
  induction front using List.reverseRecOn with
  | nil => exact iff_of_true rfl (by decide)
  | append_singleton front tree ih =>
    by_cases hescapes : Forest.escapes front = true
    · -- The tree passes through, and what it is does not matter.
      refine iff_of_true ?_ (Forest.bare_concat_of_escapes hescapes tree)
      rw [after_append, (after_eq_afterPound_iff hroot front).mpr hescapes]
      cases tree with
      | group delimiter inner span => rfl
      | token token => rw [after, after, step_of_root_eq_none hroot, plain]
    have hfalse := Bool.eq_false_iff.mpr hescapes
    have hstate : qualifier.after .normal front ≠ .afterPound := by
      intro hstate
      exact hescapes ((after_eq_afterPound_iff hroot front).mp hstate)
    cases tree with
    | group delimiter inner span =>
      rw [after_append]
      exact iff_of_true rfl ((Forest.bare_concat_of_not_colon hfalse rfl).mpr ⟨rfl, rfl⟩)
    | token token =>
      rw [after_concat, step_of_root_eq_none hroot]
      cases token with
      | punct mark =>
        rw [plain_punct_of_ne_afterPound _ mark hstate]
        exact afterPunct_eq_normal_iff mark hfalse ih
      | ident ident =>
        refine iff_of_true ?_ ((Forest.bare_concat_of_not_colon hfalse rfl).mpr ⟨rfl, rfl⟩)
        cases qualifier.after .normal front <;> rfl
      | literal literal =>
        refine iff_of_true ?_ ((Forest.bare_concat_of_not_colon hfalse rfl).mpr ⟨rfl, rfl⟩)
        cases qualifier.after .normal front <;> rfl

/-- A token comes to what looking back from it says. -/
theorem out_plain_eq_resolved (hroot : qualifier.root = none) (front : Forest) (token : Token) :
    (plain qualifier.scope (qualifier.after .normal front) token).out =
      (Tree.token token).resolved qualifier.scope front := by
  cases token with
  | punct mark => exact out_plain_of_ident?_eq_none _ _ rfl
  | literal literal => exact out_plain_of_ident?_eq_none _ _ rfl
  | ident ident =>
    rw [Tree.resolved]
    by_cases hbare : front.Bare
    · rw [(after_eq_normal_iff hroot front).mpr hbare, plain, substitute]
      cases qualifier.scope.lookup? ident.text with
      | some binding => exact (if_pos hbare).symm
      | none => rfl
    · have hstate : qualifier.after .normal front ≠ .normal := by
        intro hstate
        exact hbare ((after_eq_normal_iff hroot front).mp hstate)
      rw [plain_ident_of_ne_normal _ _ hstate]
      cases qualifier.scope.lookup? ident.text with
      | some binding => exact (if_neg hbare).symm
      | none => rfl

/-- The rest of a level is qualified by replacing the names that are bare behind what was
read before. -/
theorem level_eq_resolved (hroot : qualifier.root = none) (front : Forest) :
    (trees : Forest) → qualifier.level (qualifier.after .normal front) trees =
      Forest.resolved qualifier.scope front trees
  | [] => by
    have hnormal : State.normal.held = [] := rfl
    rw [level, held_after hroot front hnormal, Forest.resolved]
  | .token token :: rest => by
    have hrest := level_eq_resolved hroot (front ++ [Tree.token token]) rest
    rw [after_concat, step_of_root_eq_none hroot] at hrest
    rw [level, step_of_root_eq_none hroot, out_plain_eq_resolved hroot, hrest, Forest.resolved]
  | .group delimiter inner span :: rest => by
    have hnormal : State.normal.held = [] := rfl
    have hinner : qualifier.level .normal inner = Forest.resolved qualifier.scope [] inner :=
      level_eq_resolved hroot [] inner
    -- Behind a group a level goes on as if nothing stood in front.
    have hrest := level_eq_resolved hroot (front ++ [Tree.group delimiter inner span]) rest
    rw [after_append, after, after] at hrest
    rw [level, group, held_after hroot front hnormal, hinner, hrest, Forest.resolved,
      Tree.resolved]
    rfl

/-- With namespacing off a body is qualified by replacing its bare names. A name is
replaced by the path it is bound to exactly where looking back over its level finds it
bare; every other token stays where it is, as it is. -/
theorem qualify_eq_resolved (scope : Scope) (config : Config) (trees : Forest)
    (hoff : config.namespacing = false) :
    (ofScope scope config).qualify trees = Forest.resolved scope [] trees := by
  have hroot : (ofScope scope config).root = none := by simp [ofScope, hoff]
  rw [qualify_eq_level]
  exact level_eq_resolved hroot [] trees

/-- Of the names in `'a #'a #:: a :: a ##a : a`, with the last one in a group, those
behind a tick and behind a `::` that act are kept, and the other ones are replaced. -/
theorem qualify_eq_resolved_escaped_marks :
    let path : Path := [.name { text := "x" }, .name { text := "a" }]
    let scope : Scope := ⟨[⟨{ text := "a" }, path⟩], []⟩
    let config : Config := {}
    let mark (text : String) (spacing : Spacing) : Tree := .punct { text, spacing }
    let name : Tree := .ident { text := "a" }
    let tick : Forest := [mark "'" .joint]
    let pound : Forest := [mark "#" .joint]
    let colon : Forest := [mark ":" .alone]
    let separator : Forest := mark ":" .joint :: colon
    let trees : Forest :=
      tick ++ name :: (pound ++ tick) ++ name :: (pound ++ separator) ++ name :: separator ++
        name :: (pound ++ pound) ++ name :: colon ++ [.group .paren [name] {}]
    config.namespacing = false ∧ (ofScope scope config).qualify trees =
      tick ++ name :: (pound ++ tick) ++ path.trees ++ (pound ++ separator) ++ path.trees ++
        separator ++ name :: (pound ++ pound) ++ path.trees ++ colon ++
          [.group .paren path.trees {}] := by
  intro path scope config mark name tick pound colon separator trees
  refine ⟨rfl, ?_⟩
  rw [qualify_eq_resolved scope config trees rfl]
  decide +kernel

end Qualifier

end Qualify
