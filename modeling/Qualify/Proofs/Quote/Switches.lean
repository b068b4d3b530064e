import Qualify.Proofs.Declaration.Reading
import Qualify.Proofs.Quote.Wrapped

/-!
# Ways to leave out the prelude

The prelude is left out by an entry point that asks for it, by the declaration
`use no_prelude;` at the head of a body, and by a configuration that selects no bundle.
All three lead to one scope (`Scope.ofBindings_noPrelude`), since a switch is no binding
and everything else is declared as before; in the same way `use no_std;` stands for the
selection without the standard bundle (`Scope.ofBindings_noStd`). What stands in front of
a body is not touched by any of this: a flavor splits it off without looking at what
follows the arrow (`Flavor.Lead.exists_split`).

## Main definitions

- `Declaration.Switch` — the trees of `use name;` in a style
- `Flavor.Lead` — the trees in front of a body
-/

namespace Qualify

/-! ### Scopes -/

namespace Selection

/-- A selection without the standard bundle; the others are kept. -/
def withoutStd (selection : Selection) : Selection :=
  { selection with std := false, core_of_std := nofun }

theorem select_withoutStd (selection : Selection) :
    select selection.core false selection.edition = .ok selection.withoutStd := by
  have hcore : (selection.core || false) = selection.core := Bool.or_false _
  have hedition : selection.edition = true → (selection.core || false) = true := by
    rw [hcore]
    exact selection.core_of_edition
  rw [select, dif_pos hedition]
  simp only [hcore, withoutStd]

end Selection

theorem Binding.isSwitch_eq_false {binding : Binding} {name : String} (other : String)
    (h : binding.isSwitch name = true) (hne : name ≠ other) : binding.isSwitch other = false := by
  simp only [isSwitch, Bool.and_eq_true, decide_eq_true_eq] at h
  simp [isSwitch, h.1, hne]

namespace Declared

theorem ofBindings_noPrelude {binding : Binding} (h : binding.isSwitch noPrelude = true)
    (bindings : List Binding) :
    ofBindings (binding :: bindings) = { ofBindings bindings with prelude := false } := by
  have hstd := Binding.isSwitch_eq_false noStd h (by decide)
  simp [ofBindings, h, hstd]

theorem ofBindings_noStd {binding : Binding} (h : binding.isSwitch noStd = true)
    (bindings : List Binding) :
    ofBindings (binding :: bindings) = { ofBindings bindings with std := false } := by
  have hprelude := Binding.isSwitch_eq_false noPrelude h (by decide)
  simp [ofBindings, h, hprelude]

end Declared

theorem Prelude.bindings_withoutStd (selection : Selection) (std : Bool) :
    bindings selection.withoutStd std = bindings selection false := by
  rw [bindings, bindings, Bool.and_false]
  rfl

namespace Scope

/-- The switch that drops the prelude stands for a selection of no bundle. -/
theorem ofBindings_noPrelude {binding : Binding} (h : binding.isSwitch noPrelude = true)
    (bindings : List Binding) (config : Config) :
    ofBindings (binding :: bindings) config =
      ofBindings bindings { config with prelude := .disabled } := by
  simp [ofBindings, Declared.ofBindings_noPrelude h, Selection.disabled]

/-- The switch that drops the standard bundle stands for the selection without it. -/
theorem ofBindings_noStd {binding : Binding} (h : binding.isSwitch noStd = true)
    (bindings : List Binding) (config : Config) :
    ofBindings (binding :: bindings) config =
      ofBindings bindings { config with prelude := config.prelude.withoutStd } := by
  rw [ofBindings, ofBindings, Declared.ofBindings_noStd h]
  simp only [Prelude.bindings_withoutStd]
  rfl

end Scope

/-! ### Declared switches -/

/-- The trees of the declaration `use name;` in a style. -/
inductive Declaration.Switch (name : String) (style : Style) : Forest → Prop
  | intro {introducer : Forest} {word target semicolon : Tree}
      (introduced : Introducer style introducer) (use : word.isIdent "use" = true)
      (named : target.isIdent name = true) (ended : semicolon.isPunct ";" = true) :
      Switch name style (introducer ++ [word, target, semicolon])

namespace Quote

/-- A quote with one more declaration in front. -/
def declare (quote : Quote) (binding : Binding) : Quote :=
  { quote with bindings := binding :: quote.bindings }

theorem expand_declare_noPrelude {binding : Binding} (h : binding.isSwitch noPrelude = true)
    (quote : Quote) (config : Config) :
    (quote.declare binding).expand config =
      quote.expand { config with prelude := .disabled } := by
  rw [expand, scope, declare, Scope.ofBindings_noPrelude h]
  rfl

theorem expand_declare_noStd {binding : Binding} (h : binding.isSwitch noStd = true)
    (quote : Quote) (config : Config) :
    (quote.declare binding).expand config =
      quote.expand { config with prelude := config.prelude.withoutStd } := by
  rw [expand, scope, declare, Scope.ofBindings_noStd h]
  rfl

/-- Leaving out the prelude is the same as selecting no bundle. -/
theorem expand_withoutPrelude (quote : Quote) (config : Config) :
    quote.withoutPrelude.expand config = quote.expand { config with prelude := .disabled } :=
  expand_declare_noPrelude (by decide) quote config

end Quote

/-- A declaration of one name binds it to the path of that name. -/
theorem Declaration.leading_name {style : Style} {introducer : Forest} {word semicolon : Tree}
    {ident : Ident} (stop : Span) (body : Forest) (introduced : Introducer style introducer)
    (use : word.isIdent "use" = true) (hself : ident.text ≠ "self")
    (ended : semicolon.isPunct ";" = true) :
    leading style stop (introducer ++ ([word, .ident ident, semicolon] ++ body)) =
      prepend [⟨ident, [.name ident]⟩] (leading style stop body) := by
  have hmarked : (Segment.name ident).Marked := trivial
  have hlast : (Segment.name ident).isSelf = false := decide_eq_false hself
  have hitems : Clauses.Spelled [.plain [] (.name ident)] [.ident ident] :=
    .cons (.plain .nil hmarked) .stop
  have hpath : Clause.path [] [] (.name ident) = [.name ident] :=
    Clause.path_of_not_self [] [] hlast
  have hvalid : (Clause.plain [] (.name ident)).Valid [] := by
    refine ⟨Clause.selfless_of_not_self [] (List.forall_mem_nil _) hlast, ident, ?_⟩
    rw [hpath]
    rfl
  have hbindings : Clauses.bindings [] [.plain [] (.name ident)] = [⟨ident, [.name ident]⟩] := by
    rw [Clauses.bindings, Clause.bindings, hpath]
    rfl
  rw [← hbindings]
  exact leading_of_spelled stop body introduced (.relative use hitems ended) ⟨hvalid, trivial⟩

/-- A switch at the head of a body is one more binding, and everything behind it is read
as before. -/
theorem Declaration.Switch.read {name : String} {style : Style} {switch : Forest}
    (h : Switch name style switch) (hself : name ≠ "self") :
    ∃ binding, binding.isSwitch name = true ∧ ∀ body,
      Quote.read style (switch ++ body) = (Quote.read style body).map (·.declare binding) := by
  cases h with
  | intro introduced use named ended =>
    obtain ⟨ident, rfl, rfl⟩ := exists_ident_of_isIdent named
    refine ⟨⟨ident, [.name ident]⟩, by simp [Binding.isSwitch], fun body => ?_⟩
    rw [Quote.read, List.append_assoc, leading_name {} body introduced use hself ended, Quote.read]
    cases leading style {} body <;> rfl

theorem expandBody_true (config : Config) (body : Forest) :
    expandBody config true body =
      expandBody { config with prelude := .disabled } false body := by
  rw [expandBody, expandBody]
  exact congrArg (Except.map · _) (funext fun quote => quote.expand_withoutPrelude config)

/-- A switch at the head of a body stands for a selection if it does so for every quote
that declares it. -/
theorem expandBody_switch {name : String} (config : Config) (selection : Selection)
    {switch : Forest} (h : Declaration.Switch name config.style switch) (hself : name ≠ "self")
    (heq : ∀ binding, binding.isSwitch name = true → ∀ quote : Quote,
      (quote.declare binding).expand config = quote.expand { config with prelude := selection })
    (body : Forest) :
    expandBody config false (switch ++ body) =
      expandBody { config with prelude := selection } false body := by
  obtain ⟨binding, hswitch, hread⟩ := h.read hself
  rw [expandBody, hread, expandBody]
  cases Quote.read config.style body with
  | error error => simp only [Except.map]
  | ok quote => simp only [Except.map, Bool.false_eq_true, if_false, heq binding hswitch quote]

theorem expandBody_noPrelude {config : Config} {switch : Forest}
    (h : Declaration.Switch noPrelude config.style switch) (body : Forest) :
    expandBody config false (switch ++ body) =
      expandBody { config with prelude := .disabled } false body :=
  expandBody_switch config .disabled h (by decide)
    (fun _ hswitch quote => quote.expand_declare_noPrelude hswitch config) body

theorem expandBody_noStd {config : Config} {switch : Forest}
    (h : Declaration.Switch noStd config.style switch) (flag : Bool) (body : Forest) :
    expandBody config flag (switch ++ body) =
      expandBody { config with prelude := config.prelude.withoutStd } flag body := by
  cases flag with
  | false =>
    exact expandBody_switch config config.prelude.withoutStd h (by decide)
      (fun _ hswitch quote => quote.expand_declare_noStd hswitch config) body
  | true =>
    -- Without any prelude there is no standard bundle to leave out.
    rw [expandBody_true, expandBody_true]
    exact expandBody_switch { config with prelude := .disabled } .disabled h (by decide)
      (fun _ hswitch quote => quote.expand_declare_noStd hswitch _) body

/-! ### Bodies of flavors -/

namespace Forest

theorem arrowAt_append_length (front rest : Forest) :
    arrowAt (front ++ rest) front.length = arrowAt rest 0 := by
  induction front with
  | nil => rfl
  | cons tree front ih => exact ih

/-- No arrow stands before the end of trees that hold none, if no `>` follows them. -/
theorem arrowAt_append_of_lt {front rest : Forest} {next : Tree} {index : Nat}
    (hfront : ∀ index, front.arrowAt index = false) (hnext : next.isPunct ">" = false)
    (hlt : index < front.length) : arrowAt (front ++ next :: rest) index = false := by
  induction front generalizing index with
  | nil => cases hlt
  | cons tree front ih =>
    cases index with
    | succ index => exact ih (fun index => hfront (index + 1)) (Nat.lt_of_succ_lt_succ hlt)
    | zero =>
      cases front with
      | nil => simp [arrowAt, hnext]
      | cons second front => exact hfront 0

end Forest

namespace Flavor

/-- The trees in front of a body: none, or for a spanned flavor a span expression, which
holds no arrow on its level, and an arrow. -/
inductive Lead : Flavor → Forest → Prop
  | nil {flavor : Flavor} (plain : flavor.isSpanned = false) : Lead flavor []
  | span {flavor : Flavor} {expression : Forest} {equals greater : Tree}
      (spanned : flavor.isSpanned = true) (arrowless : ∀ index, expression.arrowAt index = false)
      (joint : equals.isPunctSpaced "=" .joint = true) (behind : greater.isPunct ">" = true) :
      Lead flavor (expression ++ [equals, greater])

/-- What is split off in front of a body, or refused there, does not depend on the body. -/
theorem Lead.exists_split {flavor : Flavor} {lead : Forest} (h : flavor.Lead lead) :
    ∃ outcome : Except SyntaxError Forest, ∀ body,
      flavor.split (lead ++ body) = outcome.map fun expression => (expression, body) := by
  cases h with
  | nil plain => exact ⟨.ok [], fun body => split_of_not_spanned plain body⟩
  | @span expression equals greater spanned arrowless joint behind =>
    have harrow (body : Forest) : Forest.arrowAt (equals :: greater :: body) 0 = true := by
      simp [Forest.arrowAt, joint, behind]
    cases expression with
    | nil =>
      exact ⟨.error ⟨.missingSpanExpression, equals.span⟩, fun body =>
        split_of_arrowAt_zero spanned (harrow body)⟩
    | cons first others =>
      refine ⟨.ok (first :: others), fun body => ?_⟩
      have hnext := Declaration.isPunct_eq_false_of_isPunct ">"
        (Declaration.isPunct_of_isPunctSpaced joint) (by decide)
      have hat := Forest.arrowAt_append_length (first :: others) (equals :: greater :: body)
      rw [harrow] at hat
      rw [List.append_assoc]
      exact split_of_arrowAt spanned (Nat.succ_pos others.length) hat
        fun index hlt => Forest.arrowAt_append_of_lt arrowless hnext hlt

/-- Behind the same trees, bodies that expand alike are wrapped alike. -/
theorem Lead.expand_congr {flavor : Flavor} {lead : Forest} (h : flavor.Lead lead)
    {config other : Config} {noPrelude flag : Bool} {body rest : Forest}
    (heq : expandBody config noPrelude body = expandBody other flag rest) :
    flavor.expand config noPrelude (lead ++ body) = flavor.expand other flag (lead ++ rest) := by
  obtain ⟨outcome, hsplit⟩ := h.exists_split
  rw [expand_eq_bind, expand_eq_bind, hsplit, hsplit]
  cases outcome with
  | error error => simp only [Except.map, Except.bind]
  | ok expression => simp only [Except.map, Except.bind, heq]

/-- The ways to leave out the prelude agree. To ask for it, to declare the switch at the
head of the body, in the style of the configuration, and to select no bundle give the same
call or the same error; to declare the switch of the standard bundle gives what the
selection without that bundle gives, which is always allowed. -/
theorem expand_switched (flavor : Flavor) (config : Config) {lead : Forest}
    (hlead : flavor.Lead lead) (body : Forest) :
    (∀ switch, Declaration.Switch noPrelude config.style switch →
      flavor.expand config false (lead ++ (switch ++ body)) =
        flavor.expand config true (lead ++ body)) ∧
    flavor.expand { config with prelude := .disabled } false (lead ++ body) =
      flavor.expand config true (lead ++ body) ∧
    ∃ selection, Selection.select config.prelude.core false config.prelude.edition =
        .ok selection ∧
      ∀ switch, Declaration.Switch noStd config.style switch → ∀ flag,
        flavor.expand config flag (lead ++ (switch ++ body)) =
          flavor.expand { config with prelude := selection } flag (lead ++ body) := by
  refine ⟨fun switch hswitch => ?_, ?_, config.prelude.withoutStd,
    config.prelude.select_withoutStd, fun switch hswitch flag => ?_⟩
  · refine hlead.expand_congr ?_
    rw [expandBody_noPrelude hswitch, expandBody_true]
  · refine hlead.expand_congr ?_
    rw [expandBody_true]
  · exact hlead.expand_congr (expandBody_noStd hswitch flag body)

/-- A body that declares a switch itself and uses a name of the prelude, behind a span
expression. -/
theorem expand_switched_span :
    let mark (text : String) (spacing : Spacing) : Tree := .punct { text, spacing }
    let name (text : String) : Tree := .ident { text }
    let declare (target : String) : Forest :=
      [mark "#" .alone, name "use", name target, mark ";" .alone]
    let lead : Forest := [name "s", mark "=" .joint, mark ">" .alone]
    let body : Forest := declare noStd ++ [name "Some"]
    let result : Forest := quoteSpanned.wrap [name "s"] [name "Some"]
    quoteSpanned.Lead lead ∧
      Declaration.Switch noPrelude .pound (declare noPrelude) ∧
      quoteSpanned.expand {} true (lead ++ body) = .ok result ∧
      quoteSpanned.expand {} false (lead ++ (declare noPrelude ++ body)) = .ok result ∧
      quoteSpanned.expand { prelude := .disabled } false (lead ++ body) = .ok result ∧
      Declaration.Switch noStd .pound (declare noStd) ∧
      ∃ selection, Selection.select true false true = .ok selection ∧
        quoteSpanned.expand {} false (lead ++ (declare noStd ++ body)) =
          quoteSpanned.expand { prelude := selection } false (lead ++ body) := by
  intro mark name declare lead body result
  have hlead : quoteSpanned.Lead lead := by
    refine @Lead.span _ [name "s"] _ _ rfl (fun index => ?_) rfl rfl
    cases index <;> rfl
  have hswitch : Declaration.Switch noPrelude .pound (declare noPrelude) :=
    .intro (.pound rfl) rfl rfl rfl
  have hstd : Declaration.Switch noStd .pound (declare noStd) := .intro (.pound rfl) rfl rfl rfl
  obtain ⟨hdeclared, hdisabled, selection, hselect, hwithout⟩ :=
    expand_switched quoteSpanned {} hlead body
  have hresult : quoteSpanned.expand { prelude := .disabled } false (lead ++ body) = .ok result :=
    eq_ok_of_toOption (by decide +kernel)
  have hflag : quoteSpanned.expand {} true (lead ++ body) = .ok result :=
    hdisabled.symm.trans hresult
  exact ⟨hlead, hswitch, hflag, (hdeclared _ hswitch).trans hflag, hresult, hstd, selection,
    hselect, hwithout _ hstd false⟩

end Flavor

end Qualify
