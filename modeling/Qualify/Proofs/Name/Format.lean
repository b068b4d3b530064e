import Qualify.Name
import Qualify.Proofs.Qualifier.Ahead
import Qualify.Proofs.Terminal.Edge

/-!
# Filling templates under the namespace root

The namespace root is put in front of a template before the template is read, so it must
not be read as a part of it. It never is: whatever the seed was, the root is a name
(`isName_namespaceRoot`), and a text without braces in front of a template only stands in
front of what the template comes to (`fill_append`). The fields behind it are the same,
they take their arguments in the same order and fail alike.

## Main definitions

- `Config.seedMark` — what a seed puts between the common start and a name
-/

namespace Qualify

/-! ### Texts without braces -/

namespace Template

/-- A text that has no field and no doubled brace in it. -/
def Plain (text : List Char) : Prop := ∀ c ∈ text, c ≠ '\x7b' ∧ c ≠ '\x7d'

theorem partsFrom_cons_of_plain {c : Char} (h : c ≠ '\x7b' ∧ c ≠ '\x7d') (rest : List Char) :
    partsFrom .literal (c :: rest) = .literal c :: partsFrom .literal rest := by
  rw [partsFrom, if_neg h.1, if_neg h.2]
  · intro _ hc
    exact absurd hc h.1
  · intro _ hc
    exact absurd hc h.2

theorem partsFrom_append {front : List Char} (h : Plain front) (back : List Char) :
    partsFrom .literal (front ++ back) = front.map .literal ++ partsFrom .literal back := by
  induction front with
  | nil => rfl
  | cons c front ih =>
    obtain ⟨hc, hfront⟩ := List.forall_mem_cons.mp h
    rw [List.cons_append, partsFrom_cons_of_plain hc, ih hfront]
    rfl

/-- Literal characters in front change neither the numbering of the fields behind them nor
their faults. -/
theorem fillParts_append (arguments : Arguments) (numbering : Numbering) (front : List Char)
    (parts : List Part) :
    fillParts arguments numbering (front.map .literal ++ parts) =
      (fillParts arguments numbering parts).map (front ++ ·) := by
  induction front with
  | nil =>
    rw [List.map_nil, List.nil_append]
    cases fillParts arguments numbering parts <;> rfl
  | cons c front ih =>
    rw [List.map_cons, List.cons_append, fillParts, ih]
    cases fillParts arguments numbering parts <;> rfl

/-- A text without braces in front of a template stands in front of what it comes to. -/
theorem fill_append {front : String} (h : Plain front.toList) (template : String)
    (arguments : Arguments) :
    fill (front ++ template) arguments = (fill template arguments).map (front ++ ·) := by
  rw [fill, fill, parts, parts, String.toList_append, partsFrom_append h, fillParts_append]
  cases fillParts arguments .undecided (partsFrom .literal template.toList) with
  | error error => rfl
  | ok text => simp [Except.map, String.ofList_append]

theorem fill_of_plain {template : String} (h : Plain template.toList) (arguments : Arguments) :
    fill template arguments = .ok template := by
  have hfill := fill_append h "" arguments
  rw [String.append_empty] at hfill
  rw [hfill]
  simp [fill, parts, partsFrom, Mode.atEnd, fillParts, Except.map]

theorem plain_of_isName {name : List Char} (h : Terminal.IsName name) : Plain name := by
  intro c hc
  have hname := h.forall_mem c hc
  exact ⟨Terminal.ne_of_isName hname (by decide), Terminal.ne_of_isName hname (by decide)⟩

theorem plain_of_isIdent {lexeme : List Char} (h : Terminal.IsIdent lexeme) : Plain lexeme := by
  rcases h with h | ⟨name, h, rfl⟩
  · exact plain_of_isName h
  · have hname := plain_of_isName h
    simp only [Plain, List.forall_mem_cons]
    exact ⟨by decide, by decide, hname⟩

end Template

/-! ### The namespace root -/

namespace Config

theorem isName_seedChar (c : Char) : Terminal.isName (seedChar c) = true := by
  unfold seedChar
  split
  · assumption
  · decide

/-- What a seed puts between the common start and a name. -/
def seedMark (seed : String) : List Char := seed.toList.map seedChar ++ ['_']

theorem isName_of_mem_seedMark {seed : String} {c : Char} (h : c ∈ seedMark seed) :
    Terminal.isName c = true := by
  rcases List.mem_append.mp h with h | h
  · obtain ⟨d, -, rfl⟩ := List.mem_map.mp h
    exact isName_seedChar d
  · obtain rfl := List.mem_singleton.mp h
    decide

theorem toList_namespaceRoot {config : Config} {seed : String} (hseed : config.seed = some seed)
    (hne : seed ≠ "") : config.namespaceRoot.toList = namespaceBase.toList ++ seedMark seed := by
  rw [namespaceRoot, hseed]
  simp only [if_neg hne, String.toList_append, String.toList_ofList, List.append_assoc, seedMark]
  rfl

/-- Whatever the seed is, the namespace root is a name. -/
theorem isName_namespaceRoot (config : Config) : Terminal.IsName config.namespaceRoot.toList := by
  have hbase : Terminal.IsName namespaceBase.toList := by
    exact ⟨by decide, List.all_eq_true.mp (by decide)⟩
  cases hseed : config.seed with
  | none =>
    rw [namespaceRoot, hseed]
    exact hbase
  | some seed =>
    by_cases hne : seed = ""
    · rw [namespaceRoot, hseed]
      simp only [hne, if_true]
      exact hbase
    · rw [toList_namespaceRoot hseed hne]
      exact hbase.append fun c hc => isName_of_mem_seedMark hc

end Config

/-! ### Names from templates -/

namespace Name

variable {root template : String}

theorem namespaced_dollar (h : template.toList.head? ≠ some '$') :
    namespaced root ("$" ++ template) = root ++ template := by
  have htext : ("$" ++ template).toList = '$' :: template.toList := by simp
  rw [namespaced, htext]
  split
  · next heq => simp_all
  · next heq =>
    cases heq
    rw [String.ofList_toList]
  · next hnone => exact absurd rfl (hnone template.toList)

theorem namespaced_dollars : namespaced root ("$$" ++ template) = "$" ++ template := by
  have htext : ("$$" ++ template).toList = '$' :: '$' :: template.toList := by simp
  rw [namespaced, htext]
  apply String.toList_inj.mp
  simp

theorem namespaced_of_no_dollar (h : template.toList.head? ≠ some '$') :
    namespaced root template = template := by
  unfold namespaced
  split
  · next heq => simp [heq] at h
  · next heq => simp [heq] at h
  · rfl

theorem format_of_namespacing {config : Config} (hon : config.namespacing = true)
    (arguments : Template.Arguments) :
    format config template arguments =
      (Template.fill (namespaced config.namespaceRoot template) arguments).mapError .template := by
  rw [format, if_pos hon]

/-- What a text without braces in front of a template changes is the text in front. -/
theorem mapError_fill_append {front : String} (h : Template.Plain front.toList)
    (arguments : Template.Arguments) :
    (Template.fill (front ++ template) arguments).mapError NameError.template =
      ((Template.fill template arguments).mapError .template).map (front ++ ·) := by
  rw [Template.fill_append h]
  cases Template.fill template arguments <;> rfl

theorem qualify_dollar_ident {config : Config} (hon : config.namespacing = true) (scope : Scope)
    {dollar : Punct} (ident : Ident) (h : dollar.text = "$") :
    (Qualifier.ofScope scope config).qualify [.punct dollar, .ident ident] =
      [.ident (ident.under config.namespaceRoot)] := by
  have hheld : (Tree.punct dollar).isPunct "$" = true ∧ State.normal ≠ .afterPound :=
    ⟨by simp [Tree.isPunct, h], by decide⟩
  obtain ⟨held, -, hlevel⟩ := Qualifier.exists_held_of_dollar rfl hheld
  rw [Qualifier.ofScope, if_pos hon, Qualifier.qualify_eq_level, hlevel, Qualifier.level_token]
  rfl

/-- With namespacing on, the template behind a `$` is filled as it is on its own and put
behind the namespace root, the one behind `$$` is put behind a `$`, and any other is only
filled; where filling it fails, all three fail with the same error. If the template is an
identifier, the first of them is the name that a qualifier puts out for `$` and that
identifier. -/
theorem format_lead (config : Config) (template : String) (arguments : Template.Arguments)
    (hon : config.namespacing = true) (hlead : template.toList.head? ≠ some '$') :
    let filled := (Template.fill template arguments).mapError NameError.template
    format config ("$" ++ template) arguments = filled.map (config.namespaceRoot ++ ·) ∧
      format config ("$$" ++ template) arguments = filled.map ("$" ++ ·) ∧
      format config template arguments = filled ∧
      (Terminal.ident? template.toList = some template.toList →
        ∀ (scope : Scope) (dollar : Punct) (ident : Ident),
          dollar.text = "$" → ident.text = template →
            ∃ made, (Qualifier.ofScope scope config).qualify [.punct dollar, .ident ident] =
                [.ident made] ∧
              format config ("$" ++ template) arguments = .ok made.text) := by
  intro filled
  have hroot : Template.Plain config.namespaceRoot.toList :=
    Template.plain_of_isName config.isName_namespaceRoot
  have hdollar : Template.Plain "$".toList := List.forall_mem_singleton.mpr (by decide)
  have hunder : format config ("$" ++ template) arguments =
      filled.map (config.namespaceRoot ++ ·) := by
    rw [format_of_namespacing hon, namespaced_dollar hlead, mapError_fill_append hroot]
  refine ⟨hunder, ?_, ?_, ?_⟩
  · rw [format_of_namespacing hon, namespaced_dollars, mapError_fill_append hdollar]
  · rw [format_of_namespacing hon, namespaced_of_no_dollar hlead]
  · rintro hident scope dollar ident hmark rfl
    have hplain := Template.plain_of_isIdent (Terminal.isIdent_of_ident? hident)
    refine ⟨_, qualify_dollar_ident hon scope ident hmark, ?_⟩
    simp only [hunder, filled, Template.fill_of_plain hplain]
    rfl

/-- A seed of braces, a dollar and a letter that no name can hold, in front of a template
with two fields and of a raw identifier. -/
theorem format_lead_braces :
    let config : Config := { namespacing := true, seed := some "\x7b\x7d$é" }
    let arguments : Template.Arguments := ⟨[.integer 7], [("n", .text "k")]⟩
    let template := "v\x7b\x7d_\x7bn:>3\x7d"
    let dollar : Punct := { text := "$" }
    let ident : Ident := { text := "r#v" }
    config.namespacing = true ∧ template.toList.head? ≠ some '$' ∧
      format config ("$" ++ template) arguments = .ok "__quote_use______v7_  k" ∧
      format config ("$$" ++ template) arguments = .ok "$v7_  k" ∧
      format config template arguments = .ok "v7_  k" ∧
      Terminal.ident? ident.text.toList = some ident.text.toList ∧
      ∃ made, (Qualifier.ofScope ⟨[], []⟩ config).qualify [.punct dollar, .ident ident] =
          [.ident made] ∧
        format config ("$" ++ ident.text) arguments = .ok made.text := by
  intro config arguments template dollar ident
  have hfill : Template.fill template arguments = .ok "v7_  k" :=
    eq_ok_of_toOption (by decide +kernel)
  have hroot : config.namespaceRoot = "__quote_use______" := by decide +kernel
  have hident : Terminal.ident? ident.text.toList = some ident.text.toList := by decide +kernel
  obtain ⟨hunder, hdollar, hplain, -⟩ :=
    format_lead config template arguments rfl (by decide +kernel)
  obtain ⟨-, -, -, hname⟩ := format_lead config ident.text arguments rfl (by decide +kernel)
  rw [hfill] at hunder hdollar hplain
  rw [hroot] at hunder
  exact ⟨rfl, by decide +kernel, hunder, hdollar, hplain, hident,
    hname hident ⟨[], []⟩ dollar ident rfl rfl⟩

end Name

end Qualify
