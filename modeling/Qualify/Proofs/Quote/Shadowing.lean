import Qualify.Proofs.Declaration.Sequence
import Qualify.Proofs.Qualifier.Places
import Qualify.Proofs.Quote.Wrapped
import Qualify.Proofs.Scope.Ranked

/-!
# Shadowing is not seen

A body sees its scope through the binding of each name alone (`Qualifier.qualify_congr`).
So bindings that no name resolves to can be left out, and declarations can be put into
another order as long as those of one name keep theirs: a switch acts from wherever it
stands, and what comes first of a name comes first still (`Reordered.lookup?_eq`). Where
declarations stand does not matter here, so they may as well be written anew.

## Main definitions

- `namesakes` — the bindings of a name, in order
- `Reordered` — the same bindings in another order
- `Shadowing` — what holds of declared bindings under a configuration
-/

namespace Qualify

/-! ### Scopes that resolve names alike -/

namespace Qualifier

theorem substitute_congr {scope other : Scope} (h : ∀ name, scope.lookup? name = other.lookup? name) :
    substitute scope = substitute other := by
  funext ident
  rw [substitute, substitute, h]

theorem plain_congr {scope other : Scope} (h : substitute scope = substitute other) :
    plain scope = plain other := by
  funext state token
  unfold plain
  rw [h]

theorem namespacing_congr {scope other : Scope} (h : plain scope = plain other) (root : String) :
    namespacing scope root = namespacing other root := by
  have hrelease : release scope = release other := by
    funext held token
    rw [release, release, h]
  funext state token
  unfold namespacing
  rw [h, hrelease]

/-- A scope is seen through the binding of each name. -/
theorem step_congr {first second : Qualifier} (hroot : first.root = second.root)
    (h : ∀ name, first.scope.lookup? name = second.scope.lookup? name) :
    first.step = second.step := by
  have hplain := plain_congr (substitute_congr h)
  unfold step
  rw [hroot]
  cases second.root with
  | none => exact hplain
  | some root => exact namespacing_congr hplain root

theorem qualify_congr {first second : Qualifier} (hroot : first.root = second.root)
    (h : ∀ name, first.scope.lookup? name = second.scope.lookup? name) (trees : Forest) :
    first.qualify trees = second.qualify trees := by
  have hfeed : first.feed = second.feed := by
    funext pass event
    cases event with
    | token token => simp only [feed, Level.feed, step_congr hroot h]
    | opening delimiter span => rfl
    | closing delimiter => rfl
  rw [qualify, qualify, hfeed]

end Qualifier

/-! ### Another order -/

/-- The bindings of a name in order. A switch is none of them. -/
def namesakes (bindings : List Binding) (name : String) : List Binding :=
  bindings.filter fun binding => binding.isProper && binding.name.text = name

theorem namesakes_eq_nil {bindings : List Binding} {name : String}
    (h : ∀ binding ∈ bindings, binding.name.text ≠ name) : namesakes bindings name = [] := by
  apply List.filter_eq_nil_iff.mpr
  intro binding hmem hnamed
  exact h binding hmem (of_decide_eq_true (Bool.and_eq_true_iff.mp hnamed).2)

theorem head?_namesakes (bindings : List Binding) (name : String) :
    (namesakes bindings name).head? =
      (bindings.filter Binding.isProper).find? (·.name.text = name) := by
  rw [namesakes, List.head?_filter, List.find?_filter]
  simp only [Bool.decide_and, Bool.decide_eq_true]

/-- The same bindings in another order. Switches may stand anywhere; other bindings of one
name keep their order. -/
structure Reordered (bindings others : List Binding) : Prop where
  perm : others.Perm bindings
  order : ∀ name, namesakes others name = namesakes bindings name

/-- Only names that are bound need to be looked at. -/
theorem reordered_iff {bindings others : List Binding} :
    Reordered bindings others ↔ others.Perm bindings ∧
      ∀ binding ∈ bindings,
        namesakes others binding.name.text = namesakes bindings binding.name.text := by
  constructor
  · intro h
    exact ⟨h.perm, fun binding _ => h.order binding.name.text⟩
  · rintro ⟨hperm, horder⟩
    refine ⟨hperm, ?_⟩
    intro name
    by_cases hname : ∃ binding ∈ bindings, binding.name.text = name
    · obtain ⟨binding, hmem, rfl⟩ := hname
      exact horder binding hmem
    · have hbindings : ∀ binding ∈ bindings, binding.name.text ≠ name :=
        fun binding hmem h => hname ⟨binding, hmem, h⟩
      have hothers : ∀ binding ∈ others, binding.name.text ≠ name :=
        fun binding hmem => hbindings binding (hperm.mem_iff.mp hmem)
      rw [namesakes_eq_nil hothers, namesakes_eq_nil hbindings]

instance (bindings others : List Binding) : Decidable (Reordered bindings others) :=
  decidable_of_iff _ reordered_iff.symm

namespace Reordered

variable {bindings others : List Binding}

/-- More bindings may stand around those that are moved. -/
theorem append (h : Reordered bindings others) (front back : List Binding) :
    Reordered (front ++ (bindings ++ back)) (front ++ (others ++ back)) where
  perm := (h.perm.append_right back).append_left front
  order name := by
    have horder := h.order name
    simp only [namesakes, List.filter_append] at horder ⊢
    rw [horder]

/-- A switch acts from wherever it stands, and what comes first of a name comes first still. -/
theorem lookup?_eq (h : Reordered bindings others) (config : Config) (name : String) :
    (Scope.ofBindings others config).lookup? name =
      (Scope.ofBindings bindings config).lookup? name := by
  rw [Scope.lookup?, Scope.lookup?, Scope.all_ofBindings, Scope.all_ofBindings, Scope.ranked,
    Scope.ranked, List.find?_append, List.find?_append, ← head?_namesakes, ← head?_namesakes,
    h.order, h.perm.any_eq, h.perm.any_eq]

theorem expand_eq (h : Reordered bindings others) (config : Config) (tail : Forest) :
    Quote.expand ⟨others, tail⟩ config = Quote.expand ⟨bindings, tail⟩ config := by
  apply Qualifier.qualify_congr
  · rfl
  · exact h.lookup?_eq config

/-- Places do not matter for the order. -/
theorem bare_expand (h : Reordered (bindings.map Binding.bare) (others.map Binding.bare))
    (config : Config) {tail body : Forest} (htail : Forest.bare body = Forest.bare tail) :
    Forest.bare (Quote.expand ⟨others, body⟩ config) =
      Forest.bare (Quote.expand ⟨bindings, tail⟩ config) := by
  rw [Quote.expand, Quote.expand, Qualifier.bare_qualify, Qualifier.bare_qualify, htail]
  apply Qualifier.qualify_congr
  · rfl
  · intro name
    show (Scope.ofBindings others config).bare.lookup? name =
      (Scope.ofBindings bindings config).bare.lookup? name
    rw [← Scope.bare_ofBindings others, ← Scope.bare_ofBindings bindings, Scope.lookup?_bare,
      Scope.lookup?_bare, h.lookup?_eq]

end Reordered

/-- Declarations in front of a body come in front of its own. -/
theorem Quote.read_append {style : Style} {front : Forest} {bindings : List Binding}
    (h : Declaration.leading style {} front = .ok (bindings, [])) (body : Forest) :
    Quote.read style (front ++ body) =
      (Quote.read style body).map fun quote => ⟨bindings ++ quote.bindings, quote.tail⟩ := by
  rw [Quote.read, Quote.read, Declaration.leading_append h]
  cases Declaration.leading style {} body <;> rfl

theorem Reordered.expandBody_eq {bindings others : List Binding} (h : Reordered bindings others)
    {config : Config} {front moved : Forest}
    (hfront : Declaration.leading config.style {} front = .ok (bindings, []))
    (hmoved : Declaration.leading config.style {} moved = .ok (others, []))
    (noPrelude : Bool) (body : Forest) :
    expandBody config noPrelude (moved ++ body) = expandBody config noPrelude (front ++ body) := by
  rw [expandBody, expandBody, Quote.read_append hfront, Quote.read_append hmoved]
  cases Quote.read config.style body with
  | error error => rfl
  | ok quote =>
    refine congrArg Except.ok ?_
    cases noPrelude with
    | false => exact (h.append [] quote.bindings).expand_eq config quote.tail
    | true => exact (h.append [.noPrelude] quote.bindings).expand_eq config quote.tail

/-! ### Shadowing -/

/-- What holds of declared bindings under a configuration. -/
structure Shadowing (bindings : List Binding) (config : Config) : Prop where
  /-- A name resolves to the first binding of that name in order of rank. -/
  bound : ∀ name binding, (Scope.ofBindings bindings config).lookup? name = some binding ↔
    ∃ front back, Scope.ranked bindings config = front ++ binding :: back ∧
      binding.name.text = name ∧ ∀ other ∈ front, other.name.text ≠ name
  /-- A name resolves to nothing exactly if no binding has it. -/
  unbound : ∀ name, (Scope.ofBindings bindings config).lookup? name = none ↔
    ∀ binding ∈ Scope.ranked bindings config, binding.name.text ≠ name
  /-- The table that is filled binding by binding says the same. -/
  index : ∀ name, (Scope.ofBindings bindings config).lookup? name =
    ((Scope.ofBindings bindings config).index name).map Prod.fst
  /-- The effective bindings are what the table holds, each binding at its own place. -/
  found : (Scope.ofBindings bindings config).effective = (Scope.ofBindings bindings config).found
  /-- They keep their order. -/
  sublist : (Scope.ofBindings bindings config).effective.Sublist (Scope.ranked bindings config)
  /-- They are the bindings that names resolve to. -/
  effective : ∀ binding, binding ∈ (Scope.ofBindings bindings config).effective ↔
    ∃ name, (Scope.ofBindings bindings config).lookup? name = some binding
  /-- No two of them have the same name. -/
  distinct : ((Scope.ofBindings bindings config).effective.map (·.name.text)).Nodup
  /-- Every name that is bound is the name of one of them. -/
  covered : ∀ binding ∈ Scope.ranked bindings config,
    ∃ other ∈ (Scope.ofBindings bindings config).effective, other.name.text = binding.name.text
  /-- A scope of the effective bindings alone qualifies every body alike. -/
  alone : ∀ scope : Scope, scope.all = (Scope.ofBindings bindings config).effective →
    ∀ (pass : Config) (trees : Forest), (Qualifier.ofScope scope pass).qualify trees =
      (Qualifier.ofScope (Scope.ofBindings bindings config) pass).qualify trees
  /-- In another order the bindings expand every tail alike. -/
  reordered : ∀ others, Reordered bindings others → ∀ tail : Forest,
    Quote.expand ⟨others, tail⟩ config = Quote.expand ⟨bindings, tail⟩ config
  /-- So do declarations that are moved in front of a body. -/
  moved : ∀ front back others,
    Declaration.leading config.style {} front = .ok (bindings, []) →
    Declaration.leading config.style {} back = .ok (others, []) → Reordered bindings others →
      ∀ (noPrelude : Bool) (body : Forest),
        expandBody config noPrelude (back ++ body) = expandBody config noPrelude (front ++ body)
  /-- Written anew in another order, they expand a tail alike up to its places. -/
  anew : ∀ others, Reordered (bindings.map Binding.bare) (others.map Binding.bare) →
    ∀ tail body : Forest, body.bare = tail.bare →
      Forest.bare (Quote.expand ⟨others, body⟩ config) =
        Forest.bare (Quote.expand ⟨bindings, tail⟩ config)

/-- Names resolve in order of rank, and shadowed bindings are not seen. -/
theorem shadowing (bindings : List Binding) (config : Config) : Shadowing bindings config where
  bound name binding := by rw [← Scope.all_ofBindings, Scope.lookup?_eq_some_iff]
  unbound name := by rw [← Scope.all_ofBindings, Scope.lookup?_eq_none_iff]
  index := Scope.lookup?_eq_index _
  found := Scope.effective_eq_found _
  sublist := by
    rw [← Scope.all_ofBindings]
    exact Scope.firsts_sublist _ _
  effective binding := Scope.mem_effective_iff
  distinct := Scope.nodup_names_firsts _ _
  covered binding h := by
    rw [← Scope.all_ofBindings] at h
    exact Scope.exists_mem_effective h
  alone := by
    intro scope hall pass trees
    apply Qualifier.qualify_congr
    · rfl
    · exact Scope.lookup?_of_all_eq hall
  reordered others h tail := h.expand_eq config tail
  moved front back others hfront hback h := h.expandBody_eq hfront hback
  anew others h tail body htail := h.bare_expand config htail

/-- Bindings of a name that the prelude has, one of them twice, and a switch: moved as they
are, and written anew. -/
theorem shadowing_switch :
    let config : Config := { style := .bare }
    ∃ first second written body bindings others again,
      Forest.lex none "use a::Ok; use a::Ok; use x::Ok;" = .ok first ∧
      Forest.lex none "use no_std; use b;" = .ok second ∧
      Forest.lex none "use b; use a::Ok; use a::Ok; use x::Ok; use no_std;" = .ok written ∧
      Forest.lex none "Ok(b)" = .ok body ∧
      Declaration.leading .bare {} (first ++ second) = .ok (bindings, []) ∧
      Declaration.leading .bare {} (second ++ first) = .ok (others, []) ∧
      Declaration.leading .bare {} written = .ok (again, []) ∧
      Reordered bindings others ∧ ¬Reordered bindings others.reverse ∧
      Reordered (bindings.map Binding.bare) (again.map Binding.bare) ∧
      expand config (second ++ first ++ body) = expand config (first ++ second ++ body) ∧
      Forest.bare (Quote.expand ⟨again, body⟩ config) =
        Forest.bare (Quote.expand ⟨bindings, body⟩ config) ∧
      ∃ binding ∈ (Scope.ofBindings bindings config).effective,
        (Scope.ofBindings bindings config).lookup? "Ok" = some binding ∧
          binding.path.trees.render = ":: a :: Ok" := by
  intro config
  have hcheck : ((Forest.lex none "use a::Ok; use a::Ok; use x::Ok;").toOption.bind fun first =>
      (Forest.lex none "use no_std; use b;").toOption.bind fun second =>
        (Forest.lex none "use b; use a::Ok; use a::Ok; use x::Ok; use no_std;").toOption.bind
          fun written => (Forest.lex none "Ok(b)").toOption.bind fun body =>
            (Declaration.leading .bare {} (first ++ second)).toOption.bind fun front =>
              (Declaration.leading .bare {} (second ++ first)).toOption.bind fun back =>
                (Declaration.leading .bare {} written).toOption.bind fun again =>
                  ((Scope.ofBindings front.1 config).lookup? "Ok").map fun binding =>
                    ([front.2, back.2, again.2], [decide (Reordered front.1 back.1),
                      decide (Reordered front.1 back.1.reverse),
                      decide (Reordered (front.1.map Binding.bare) (again.1.map Binding.bare))],
                      binding.path.trees.render)) =
      some ([[], [], []], [true, false, true], ":: a :: Ok") := by
    decide +kernel
  obtain ⟨first, hfirst, hcheck⟩ := Option.bind_eq_some_iff.mp hcheck
  obtain ⟨second, hsecond, hcheck⟩ := Option.bind_eq_some_iff.mp hcheck
  obtain ⟨written, hwritten, hcheck⟩ := Option.bind_eq_some_iff.mp hcheck
  obtain ⟨body, hbody, hcheck⟩ := Option.bind_eq_some_iff.mp hcheck
  obtain ⟨⟨bindings, _⟩, hfront, hcheck⟩ := Option.bind_eq_some_iff.mp hcheck
  obtain ⟨⟨others, _⟩, hback, hcheck⟩ := Option.bind_eq_some_iff.mp hcheck
  obtain ⟨⟨again, _⟩, hagain, hcheck⟩ := Option.bind_eq_some_iff.mp hcheck
  obtain ⟨binding, hlookup, hcheck⟩ := Option.map_eq_some_iff.mp hcheck
  simp only [Prod.mk.injEq, List.cons.injEq, and_true, decide_eq_true_eq,
    decide_eq_false_iff_not] at hcheck
  obtain ⟨⟨rfl, rfl, rfl⟩, ⟨hmoved, hreverse, hanew⟩, hrender⟩ := hcheck
  have hfront := eq_ok_of_toOption hfront
  have hback := eq_ok_of_toOption hback
  have h := shadowing bindings config
  exact ⟨first, second, written, body, bindings, others, again, eq_ok_of_toOption hfirst,
    eq_ok_of_toOption hsecond, eq_ok_of_toOption hwritten, eq_ok_of_toOption hbody, hfront, hback,
    eq_ok_of_toOption hagain, hmoved, hreverse, hanew,
    h.moved _ _ others hfront hback hmoved false body, h.anew again hanew body body rfl,
    binding, (h.effective binding).mpr ⟨"Ok", hlookup⟩, hlookup, hrender⟩

end Qualify
