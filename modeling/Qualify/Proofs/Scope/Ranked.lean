import Qualify.Scope

/-!
# Names in order of rank

A name resolves to the first binding of that name in order of rank. Kept as a table that is
filled binding by binding, in which the first entry of a name stays (`Scope.index`), a scope
answers alike (`Scope.lookup?_eq_index`). Bindings that no name resolves to are shadowed:
`Scope.effective` drops exactly those (`Scope.mem_effective_iff`), also where a shadowed
binding equals the one in front of it (`Scope.effective_eq_found`), and without them every
name resolves as before (`Scope.find?_effective`).

## Main definitions

- `Scope.ranked` — the bindings of a scope in order of rank
- `Scope.index` — the table of a scope, with the place of each binding
- `Scope.found` — the bindings that the table holds under their name
-/

namespace Qualify

/-- Whether a binding is a binding and no switch. -/
def Binding.isProper (binding : Binding) : Bool :=
  !binding.isSwitch Qualify.noPrelude && !binding.isSwitch noStd

namespace Scope

/-- The bindings that names can resolve to: those that are declared, and behind them those of
the selected bundles that no switch drops. -/
def ranked (bindings : List Binding) (config : Config) : List Binding :=
  bindings.filter Binding.isProper ++
    if bindings.any (Binding.isSwitch noPrelude) then []
    else
      (if config.prelude.core then Prelude.core else []) ++
        ((if config.prelude.std && !bindings.any (Binding.isSwitch noStd) then Prelude.std
          else []) ++
          if config.prelude.edition then Prelude.edition else [])

/-- Without the core bundle no bundle is selected. -/
theorem all_ofBindings (bindings : List Binding) (config : Config) :
    (ofBindings bindings config).all = ranked bindings config := by
  have hstd := config.prelude.core_of_std
  have hedition := config.prelude.core_of_edition
  refine congrArg (bindings.filter Binding.isProper ++ ·) ?_
  simp only [ofBindings, Declared.ofBindings]
  by_cases hswitch : bindings.any (Binding.isSwitch noPrelude) = true
  · simp [hswitch]
  · by_cases hcore : config.prelude.core = true
    · simp [hswitch, hcore, Prelude.bindings]
    · have hstd : config.prelude.std = false := by simpa [hcore] using hstd
      have hedition : config.prelude.edition = false := by simpa [hcore] using hedition
      simp [hcore, hstd, hedition]

/-! ### The first binding of a name -/

theorem lookup?_eq_some_iff {scope : Scope} {name : String} {binding : Binding} :
    scope.lookup? name = some binding ↔
      ∃ front back, scope.all = front ++ binding :: back ∧ binding.name.text = name ∧
        ∀ other ∈ front, other.name.text ≠ name := by
  rw [lookup?, List.find?_eq_some_iff_append]
  constructor
  · rintro ⟨hname, front, back, hall, hfront⟩
    refine ⟨front, back, hall, of_decide_eq_true hname, ?_⟩
    intro other hmem
    simpa using hfront other hmem
  · rintro ⟨front, back, hall, hname, hfront⟩
    refine ⟨decide_eq_true hname, front, back, hall, ?_⟩
    intro other hmem
    simpa using hfront other hmem

theorem lookup?_eq_none_iff {scope : Scope} {name : String} :
    scope.lookup? name = none ↔ ∀ binding ∈ scope.all, binding.name.text ≠ name := by
  rw [lookup?, List.find?_eq_none]
  simp

theorem name_of_lookup? {scope : Scope} {name : String} {binding : Binding}
    (h : scope.lookup? name = some binding) : binding.name.text = name := by
  obtain ⟨front, back, -, hname, -⟩ := lookup?_eq_some_iff.mp h
  exact hname

/-! ### The table of a scope -/

/-- What names are found under: a binding and its place in order of rank. -/
def Index := String → Option (Binding × Nat)

/-- Enter a binding under its name, unless that is taken. -/
def Index.enter (index : Index) (entry : Binding × Nat) : Index := fun name =>
  (index name).or (if entry.1.name.text = name then some entry else none)

/-- The table of a scope, filled in order of rank. -/
def index (scope : Scope) : Index := scope.all.zipIdx.foldl Index.enter fun _ => none

/-- The bindings that are found under their name, each at its own place. -/
def found (scope : Scope) : List Binding :=
  (scope.all.zipIdx.filter fun entry => scope.index entry.1.name.text = some entry).map Prod.fst

/-- What is entered first stays. -/
theorem foldl_enter (entries : List (Binding × Nat)) (index : Index) (name : String) :
    entries.foldl Index.enter index name =
      (index name).or (entries.find? fun entry => entry.1.name.text = name) := by
  induction entries generalizing index with
  | nil => rw [List.foldl_nil, List.find?_nil, Option.or_none]
  | cons entry entries ih =>
    rw [List.foldl_cons, ih, Index.enter, Option.or_assoc, List.find?_cons]
    by_cases hname : entry.1.name.text = name <;> simp [hname]

theorem index_eq_find? (scope : Scope) (name : String) :
    scope.index name = scope.all.zipIdx.find? fun entry => entry.1.name.text = name :=
  foldl_enter _ _ _

theorem lookup?_eq_index (scope : Scope) (name : String) :
    scope.lookup? name = (scope.index name).map Prod.fst := by
  rw [index_eq_find?, lookup?]
  have hfst := List.zipIdx_map_fst 0 scope.all
  rw [← hfst, List.find?_map, hfst]
  rfl

/-- A binding is found at its own place exactly where none of its name stands before it. -/
theorem index_eq_some_iff {scope : Scope} {front back : List Binding} {binding : Binding}
    (hall : scope.all = front ++ binding :: back) :
    scope.index binding.name.text = some (binding, front.length) ↔
      binding.name.text ∉ front.map (·.name.text) := by
  rw [index_eq_find?, hall, List.zipIdx_append, List.find?_append]
  constructor
  · intro h hmem
    cases hfront : front.zipIdx.find? fun entry => entry.1.name.text = binding.name.text with
    | none =>
      rw [← List.zipIdx_map_fst 0 front, List.map_map] at hmem
      obtain ⟨entry, hentry, hname⟩ := List.mem_map.mp hmem
      exact List.find?_eq_none.mp hfront entry hentry (decide_eq_true hname)
    | some entry =>
      -- What is found among the bindings in front has a smaller place.
      rw [hfront, Option.some_or] at h
      have hlt := List.snd_lt_of_mem_zipIdx (List.mem_of_find?_eq_some hfront)
      rw [Option.some.inj h] at hlt
      omega
  · intro h
    have hfront : front.zipIdx.find? (fun entry => entry.1.name.text = binding.name.text) = none := by
      apply List.find?_eq_none.mpr
      intro entry hentry hname
      exact h (List.mem_map.mpr
        ⟨entry.1, List.fst_mem_of_mem_zipIdx hentry, of_decide_eq_true hname⟩)
    rw [hfront, Option.none_or, List.zipIdx_cons, Nat.zero_add]
    exact List.find?_cons_of_pos (decide_eq_true rfl)

/-! ### The bindings that count -/

theorem firsts_sublist (seen : List String) (bindings : List Binding) :
    (firsts seen bindings).Sublist bindings := by
  fun_induction firsts seen bindings with
  | case1 => exact List.Sublist.refl _
  | case2 seen binding rest hseen ih => exact ih.cons binding
  | case3 seen binding rest hseen ih => exact ih.cons_cons binding

/-- A binding stays exactly where its name is not seen and resolves to it. -/
theorem mem_firsts_iff {seen : List String} {bindings : List Binding} {binding : Binding} :
    binding ∈ firsts seen bindings ↔ binding.name.text ∉ seen ∧
      bindings.find? (fun other => other.name.text = binding.name.text) = some binding := by
  fun_induction firsts seen bindings with
  | case1 => simp
  | case2 seen first rest hseen ih =>
    rw [ih, List.find?_cons]
    by_cases hname : first.name.text = binding.name.text
    · rw [List.contains_iff_mem, hname] at hseen
      simp [hseen]
    · simp [hname]
  | case3 seen first rest hseen ih =>
    rw [List.mem_cons, ih, List.find?_cons]
    by_cases hname : first.name.text = binding.name.text
    · rw [List.contains_iff_mem, hname] at hseen
      simp [hname, hseen, eq_comm]
    · have hne : binding ≠ first := fun h => hname (h ▸ rfl)
      simp [hname, hne, Ne.symm hname]

/-- A name that is not seen resolves as before. -/
theorem find?_firsts {seen : List String} {name : String} (bindings : List Binding)
    (h : name ∉ seen) :
    (firsts seen bindings).find? (fun binding => binding.name.text = name) =
      bindings.find? fun binding => binding.name.text = name := by
  fun_induction firsts seen bindings with
  | case1 => rfl
  | case2 seen binding rest hseen ih =>
    have hname : binding.name.text ≠ name := by
      rintro rfl
      exact h (List.contains_iff_mem.mp hseen)
    rw [ih h, List.find?_cons_of_neg (by simpa using hname)]
  | case3 seen binding rest hseen ih =>
    by_cases hname : binding.name.text = name
    · simp [hname]
    · have hrest : name ∉ binding.name.text :: seen := by simp [Ne.symm hname, h]
      simpa [hname] using ih hrest

theorem nodup_names_firsts (seen : List String) (bindings : List Binding) :
    ((firsts seen bindings).map (·.name.text)).Nodup := by
  fun_induction firsts seen bindings with
  | case1 => exact List.nodup_nil
  | case2 seen binding rest hseen ih => exact ih
  | case3 seen binding rest hseen ih =>
    refine List.nodup_cons.mpr ⟨?_, ih⟩
    intro hmem
    obtain ⟨other, hother, hname⟩ := List.mem_map.mp hmem
    exact (mem_firsts_iff.mp hother).1 (hname ▸ List.mem_cons_self)

/-- Behind `front`, whose names are seen, what is left are the bindings found at their place. -/
theorem firsts_eq_found {scope : Scope} {seen : List String} {front back : List Binding}
    (hall : scope.all = front ++ back)
    (hseen : ∀ name, name ∈ seen ↔ name ∈ front.map (·.name.text)) :
    firsts seen back =
      ((back.zipIdx front.length).filter fun entry =>
        scope.index entry.1.name.text = some entry).map Prod.fst := by
  induction back generalizing seen front with
  | nil => rfl
  | cons binding back ih =>
    have hindex : scope.index binding.name.text = some (binding, front.length) ↔
        binding.name.text ∉ seen := by
      rw [index_eq_some_iff hall, hseen]
    have hmore : scope.all = (front ++ [binding]) ++ back := by
      rw [hall, List.append_assoc, List.singleton_append]
    have hlength : (front ++ [binding]).length = front.length + 1 := List.length_append
    rw [firsts, List.zipIdx_cons, ← hlength]
    by_cases hname : binding.name.text ∈ seen
    · rw [if_pos (List.contains_iff_mem.mpr hname),
        List.filter_cons_of_neg (by simpa [hindex] using hname)]
      apply ih hmore
      intro name
      rw [List.map_append, List.mem_append, ← hseen, List.map_singleton, List.mem_singleton]
      exact ⟨Or.inl, fun h => h.elim id fun h => h ▸ hname⟩
    · rw [if_neg (mt List.contains_iff_mem.mp hname),
        List.filter_cons_of_pos (by simpa [hindex] using hname), List.map_cons]
      refine congrArg (binding :: ·) (ih hmore ?_)
      intro name
      rw [List.map_append, List.mem_append, ← hseen, List.map_singleton, List.mem_singleton,
        List.mem_cons]
      exact or_comm

theorem effective_eq_found (scope : Scope) : scope.effective = scope.found := by
  apply firsts_eq_found (List.nil_append _).symm
  intro name
  exact Iff.rfl

theorem find?_effective (scope : Scope) (name : String) :
    scope.effective.find? (fun binding => binding.name.text = name) = scope.lookup? name :=
  find?_firsts scope.all List.not_mem_nil

/-- A scope without its shadowed bindings resolves every name alike. -/
theorem lookup?_of_all_eq {scope other : Scope} (h : other.all = scope.effective)
    (name : String) : other.lookup? name = scope.lookup? name := by
  rw [lookup?, h, find?_effective]

/-- The effective bindings are those that names resolve to. -/
theorem mem_effective_iff {scope : Scope} {binding : Binding} :
    binding ∈ scope.effective ↔ ∃ name, scope.lookup? name = some binding := by
  rw [effective, mem_firsts_iff]
  constructor
  · rintro ⟨-, h⟩
    exact ⟨binding.name.text, h⟩
  · rintro ⟨name, h⟩
    refine ⟨List.not_mem_nil, ?_⟩
    rw [name_of_lookup? h]
    exact h

theorem exists_mem_effective {scope : Scope} {binding : Binding} (h : binding ∈ scope.all) :
    ∃ other ∈ scope.effective, other.name.text = binding.name.text := by
  cases hlookup : scope.lookup? binding.name.text with
  | none => exact absurd rfl (lookup?_eq_none_iff.mp hlookup binding h)
  | some other => exact ⟨other, mem_effective_iff.mpr ⟨_, hlookup⟩, name_of_lookup? hlookup⟩

end Scope

end Qualify
