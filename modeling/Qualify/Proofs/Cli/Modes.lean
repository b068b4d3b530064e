import Qualify.Cli.Run
import Qualify.Proofs.Quote.Faithful
import Qualify.Proofs.Quote.Wrapped

/-!
# The modes of the command line

Three options say only in what form a run is printed: as JSON, without the call of the
macro, and with the effective scope besides. They lead to the trees on two ways, through
the split body or through the call made of the text, and both come to the same trees or
the same error (`callText_eq`). So how a run ends is settled by the other options and the
text (`Options.Exits`), an error has one diagnostic in all modes, and the tail that is
printed alone is the one inside the call (`Flavor.tail?_wrap`).

## Main definitions

- `Options.inMode` — options with other modes
- `Options.Rejected`, `Options.Configured` — what the options say about the configuration
- `Options.Exits` — the exit code of a run, said without a run
- `Flavor.tail?` — the tail inside the call of a macro
-/

namespace Qualify

/-! ### The tail inside a call -/

/-- Where a span expression was cut off, an arrow and other trees behind it are cut at the
same place. -/
theorem splitArrow?_append_arrow {trees expression body : Forest} (tail : Forest)
    (h : splitArrow? trees = some (expression, body)) :
    splitArrow? (expression ++ (Forest.operator ['=', '>'] ++ tail)) = some (expression, tail) := by
  induction trees generalizing expression with
  | nil => cases h
  | cons tree rest ih =>
    rw [splitArrow?] at h
    split at h
    · cases h
      rfl
    · next hnot =>
      obtain ⟨⟨front, after⟩, hrest, heq⟩ := Option.map_eq_some_iff.mp h
      cases heq
      obtain ⟨equals, greater, rfl⟩ := exists_of_splitArrow? hrest
      -- The arrow that is put in starts with `=`, which completes no other one.
      have harrow : Forest.startsWith ['=', '>']
          (tree :: (front ++ (Forest.operator ['=', '>'] ++ tail))) = false := by
        cases front with
        | nil => simp [Forest.startsWith, Forest.operator, Tree.isPunct]
        | cons second others => simpa [Forest.startsWith] using hnot
      rw [List.cons_append, splitArrow?, harrow, if_neg Bool.false_ne_true, ih hrest]
      rfl

namespace Flavor

/-- The trees in the braces of a call, for a spanned flavor those behind the span expression
and its arrow. -/
def tail? (flavor : Flavor) (call : Forest) : Option Forest :=
  match call.getLast? with
  | some (.group .brace inner _) =>
    if flavor.isSpanned then (splitArrow? inner).map Prod.snd else some inner
  | _ => none

theorem splitArrow?_of_split {flavor : Flavor} {trees expression body : Forest}
    (h : flavor.split trees = .ok (expression, body)) (hspanned : flavor.isSpanned = true) :
    splitArrow? trees = some (expression, body) := by
  rw [split, if_pos hspanned, splitSpan] at h
  split at h
  · cases h
  · cases h
  · next hsplit =>
    cases h
    exact hsplit

/-- The tail that is wrapped is the tail inside the call. -/
theorem tail?_wrap {flavor : Flavor} {trees expression body : Forest}
    (h : flavor.split trees = .ok (expression, body)) (tail : Forest) :
    flavor.tail? (flavor.wrap expression tail) = some tail := by
  cases hspanned : flavor.isSpanned with
  | true =>
    have hsplit := splitArrow?_append_arrow tail (splitArrow?_of_split h hspanned)
    simp [tail?, wrap_of_spanned hspanned, hspanned, hsplit]
  | false =>
    rw [split_of_not_spanned hspanned] at h
    cases h
    simp [tail?, wrap_of_not_spanned hspanned, hspanned]

end Flavor

namespace Cli

variable {options : Options} {flavor : Flavor} {config : Config} {text : String}
  {json tailOnly dumpBindings : Bool}

namespace Options

/-- Options in another form of printing. -/
def inMode (options : Options) (json tailOnly dumpBindings : Bool) : Options :=
  { options with json, tailOnly, dumpBindings }

@[simp]
theorem features_inMode (options : Options) (json tailOnly dumpBindings : Bool) :
    (options.inMode json tailOnly dumpBindings).features = options.features := rfl

@[simp]
theorem flavor_inMode (options : Options) (json tailOnly dumpBindings : Bool) :
    (options.inMode json tailOnly dumpBindings).flavor = options.flavor := rfl

@[simp]
theorem config_inMode (options : Options) (json tailOnly dumpBindings : Bool) (features : String) :
    (options.inMode json tailOnly dumpBindings).config features = options.config features := rfl

@[simp]
theorem prepareText_inMode (options : Options) (json tailOnly dumpBindings : Bool)
    (flavor : Flavor) (config : Config) (text : String) :
    (options.inMode json tailOnly dumpBindings).prepareText flavor config text =
      options.prepareText flavor config text := rfl

@[simp]
theorem callText_inMode (options : Options) (json tailOnly dumpBindings : Bool)
    (flavor : Flavor) (config : Config) (text : String) :
    (options.inMode json tailOnly dumpBindings).callText flavor config text =
      options.callText flavor config text := rfl

/-- The configuration that is asked for is invalid. -/
def Rejected (options : Options) (error : ConfigError) : Prop :=
  ∃ features, options.features = some features ∧ options.config features = .error error

/-- The configuration that is asked for, and the flavor. -/
def Configured (options : Options) (flavor : Flavor) (config : Config) : Prop :=
  options.flavor = some flavor ∧
    ∃ features, options.features = some features ∧ options.config features = .ok config

/-- The exit code of a run on a text: 0 where the text is expanded, 1 where it has a syntax
error, 2 where the configuration is rejected. -/
inductive Exits (options : Options) (text : String) : Nat → Prop
  | expanded {flavor : Flavor} {config : Config} {call : Forest}
      (configured : options.Configured flavor config)
      (expands : options.callText flavor config text = .ok call) : Exits options text 0
  | malformed {flavor : Flavor} {config : Config} {error : SyntaxError}
      (configured : options.Configured flavor config)
      (fails : options.callText flavor config text = .error error) : Exits options text 1
  | rejected {error : ConfigError} (rejected : options.Rejected error) : Exits options text 2

/-! ### Two ways to the trees -/

/-- The call that is made of a text is the call on its split body. -/
theorem callText_eq (options : Options) (flavor : Flavor) (config : Config) (text : String) :
    options.callText flavor config text =
      (options.prepareText flavor config text).map fun (expression, quote) =>
        flavor.wrap expression (quote.expand config) := by
  rw [callText, prepareText]
  cases Forest.lex options.file text with
  | error error => rfl
  | ok trees =>
    simp only [Except.bind, Flavor.expand]
    cases flavor.prepare config options.noPrelude trees <;> rfl

theorem attempt_of_error {error : SyntaxError}
    (h : options.prepareText flavor config text = .error error) :
    (options.inMode json tailOnly dumpBindings).attempt flavor config text =
      ("", .error error) := by
  rw [attempt, prepareText_inMode, callText_inMode, callText_eq, h]
  split <;> rfl

theorem attempt_of_ok {expression : Forest} {quote : Quote}
    (h : options.prepareText flavor config text = .ok (expression, quote)) :
    (options.inMode json tailOnly dumpBindings).attempt flavor config text =
      (if dumpBindings then Text.ofLines ((quote.scope config).effective.map Binding.line) else "",
        .ok (if tailOnly then quote.expand config
          else flavor.wrap expression (quote.expand config))) := by
  rw [attempt, prepareText_inMode, callText_inMode, callText_eq, h]
  cases dumpBindings <;> cases tailOnly <;> rfl

/-- Where no call is made of a text, its body is not split either, for the same error. -/
theorem prepareText_of_callText_error {error : SyntaxError}
    (h : options.callText flavor config text = .error error) :
    options.prepareText flavor config text = .error error := by
  rw [callText_eq] at h
  cases hprepare : options.prepareText flavor config text with
  | error other =>
    rw [hprepare] at h
    cases h
    rfl
  | ok prepared =>
    rw [hprepare] at h
    cases h

theorem exists_split_of_prepareText {expression : Forest} {quote : Quote}
    (h : options.prepareText flavor config text = .ok (expression, quote)) :
    ∃ trees body, flavor.split trees = .ok (expression, body) := by
  rw [prepareText] at h
  cases hlex : Forest.lex options.file text with
  | error error =>
    rw [hlex] at h
    cases h
  | ok trees =>
    rw [hlex] at h
    obtain ⟨body, -, hsplit, -⟩ := Flavor.exists_of_prepare h
    exact ⟨trees, body, hsplit⟩

/-- A call that is made of a text has the expanded body inside. -/
theorem exists_prepareText_of_callText {call : Forest}
    (h : options.callText flavor config text = .ok call) :
    ∃ expression quote, options.prepareText flavor config text = .ok (expression, quote) ∧
      call = flavor.wrap expression (quote.expand config) ∧
      flavor.tail? call = some (quote.expand config) := by
  rw [callText_eq] at h
  cases hprepare : options.prepareText flavor config text with
  | error error =>
    rw [hprepare] at h
    cases h
  | ok prepared =>
    obtain ⟨expression, quote⟩ := prepared
    rw [hprepare] at h
    cases h
    obtain ⟨trees, body, hsplit⟩ := exists_split_of_prepareText hprepare
    exact ⟨expression, quote, rfl, rfl, Flavor.tail?_wrap hsplit _⟩

@[simp]
theorem exit_report (options : Options) (code : Nat) (diagnostic : Diagnostic) :
    (options.report code diagnostic).exit = code := by
  rw [report]
  split <;> rfl

end Options

/-! ### Runs -/

open Options

theorem run_of_rejected {error : ConfigError} (h : options.Rejected error) (text : String) :
    run (options.inMode json tailOnly dumpBindings) (.text text) =
      .ok ((options.inMode json tailOnly dumpBindings).report 2 error.toDiagnostic) := by
  obtain ⟨features, hfeatures, hconfig⟩ := h
  simp [run, hfeatures, hconfig]

theorem run_of_configured (h : options.Configured flavor config) (text : String) :
    run (options.inMode json tailOnly dumpBindings) (.text text) =
      .ok ((options.inMode json tailOnly dumpBindings).expandText flavor config text) := by
  obtain ⟨hflavor, features, hfeatures, hconfig⟩ := h
  simp [run, hflavor, hfeatures, hconfig]

/-- An error is all that a run leaves behind: nothing was printed before it. -/
theorem run_of_error {error : SyntaxError} (hconfigured : options.Configured flavor config)
    (h : options.callText flavor config text = .error error) :
    run (options.inMode json tailOnly dumpBindings) (.text text) =
      .ok ((options.inMode json tailOnly dumpBindings).report 1 error.toDiagnostic) := by
  rw [run_of_configured hconfigured, expandText,
    attempt_of_error (prepareText_of_callText_error h)]
  simp only [String.empty_append]

theorem run_of_ok {expression : Forest} {quote : Quote}
    (hconfigured : options.Configured flavor config)
    (h : options.prepareText flavor config text = .ok (expression, quote)) :
    run (options.inMode json tailOnly dumpBindings) (.text text) = .ok
      { exit := 0
        stdout := (options.inMode json tailOnly dumpBindings).print
          (if tailOnly then quote.expand config
            else flavor.wrap expression (quote.expand config)).render
        stderr :=
          if dumpBindings then Text.ofLines ((quote.scope config).effective.map Binding.line)
          else "" } := by
  rw [run_of_configured hconfigured, expandText, attempt_of_ok h]

theorem exit_of_exits {code : Nat} (h : options.Exits text code) :
    (run (options.inMode json tailOnly dumpBindings) (.text text)).map Outcome.exit =
      .ok code := by
  cases h with
  | expanded configured expands =>
    obtain ⟨expression, quote, hprepare, -⟩ := exists_prepareText_of_callText expands
    rw [run_of_ok configured hprepare]
    rfl
  | malformed configured fails => rw [run_of_error configured fails, Except.map, exit_report]
  | rejected rejected => rw [run_of_rejected rejected, Except.map, exit_report]

/-- Only options without a value break a run on a text off. -/
theorem exists_exits_of_run {outcome : Outcome}
    (h : run (options.inMode json tailOnly dumpBindings) (.text text) = .ok outcome) :
    ∃ code, options.Exits text code := by
  cases hfeatures : options.features with
  | none => simp [run, hfeatures] at h
  | some features =>
    cases hconfig : options.config features with
    | error error => exact ⟨2, .rejected ⟨features, hfeatures, hconfig⟩⟩
    | ok config =>
      cases hflavor : options.flavor with
      | none => simp [run, hfeatures, hconfig, hflavor] at h
      | some flavor =>
        have hconfigured : options.Configured flavor config :=
          ⟨hflavor, features, hfeatures, hconfig⟩
        cases hcall : options.callText flavor config text with
        | error error => exact ⟨1, .malformed hconfigured hcall⟩
        | ok call => exact ⟨0, .expanded hconfigured hcall⟩

/-- How a run on a text ends is said by the options other than the modes. -/
theorem exit_eq_iff (code : Nat) :
    (run (options.inMode json tailOnly dumpBindings) (.text text)).map Outcome.exit = .ok code ↔
      options.Exits text code := by
  constructor
  · intro h
    cases hrun : run (options.inMode json tailOnly dumpBindings) (.text text) with
    | error breakdown =>
      rw [hrun] at h
      cases h
    | ok outcome =>
      obtain ⟨other, hexits⟩ := exists_exits_of_run hrun
      have hsame : Except.ok other = Except.ok code := (exit_of_exits hexits).symm.trans h
      cases hsame
      exact hexits
  · exact exit_of_exits

/-- The modes agree. All of them end alike; an error has the same diagnostic in each, and
nothing is printed besides it; and where a call is made of the text, they print the call or
the tail inside it, in plain text or as the output of a JSON object, and the scope that the
tail was expanded in, one line for each name. -/
theorem run_in_modes (options : Options) (text : String) (json tailOnly dumpBindings : Bool) :
    let mode := options.inMode json tailOnly dumpBindings
    let result := run mode (.text text)
    (∀ code, result.map Outcome.exit = .ok code ↔ options.Exits text code) ∧
    (∀ error, options.Rejected error → result = .ok (mode.report 2 error.toDiagnostic)) ∧
    (∀ flavor config, options.Configured flavor config →
      (∀ error, options.callText flavor config text = .error error →
        result = .ok (mode.report 1 error.toDiagnostic)) ∧
      (∀ call, options.callText flavor config text = .ok call →
        ∃ expression quote, options.prepareText flavor config text = .ok (expression, quote) ∧
          flavor.tail? call = some (quote.expand config) ∧
          let shown := (if tailOnly then quote.expand config else call).render
          result = .ok
            { exit := 0
              stdout := Text.ofLines [
                if json then
                  Text.Json.render (.object [
                    ("exit_code", .number 0), ("output", .text shown), ("diagnostics", .array [])])
                else shown]
              stderr :=
                if dumpBindings then
                  Text.ofLines ((quote.scope config).effective.map Binding.line)
                else "" })) := by
  intro mode result
  refine ⟨exit_eq_iff, fun error h => run_of_rejected h text, fun flavor config hconfigured => ?_⟩
  refine ⟨fun error h => run_of_error hconfigured h, fun call h => ?_⟩
  obtain ⟨expression, quote, hprepare, rfl, htail⟩ := exists_prepareText_of_callText h
  exact ⟨expression, quote, hprepare, htail, run_of_ok hconfigured hprepare⟩

/-- The tail of one text, with its scope, and the call of it as JSON; the arrow is left out
of another text. -/
theorem run_in_modes_spanned :
    let options : Options := { flavor := some .quoteSpanned, noPrelude := true }
    let text := "s => # use a::B;\nB"
    options.Configured .quoteSpanned {} ∧
      (∃ call tail, options.callText .quoteSpanned {} text = .ok call ∧
        call.render = ":: quote :: quote_spanned ! \x7bs => :: a :: B\x7d" ∧
        Flavor.quoteSpanned.tail? call = some tail ∧
        run (options.inMode false true true) (.text text) = .ok
          { exit := 0, stdout := Text.ofLines [tail.render],
            stderr := Text.ofLines ["B => :: a :: B"] } ∧
        run (options.inMode true false false) (.text text) = .ok
          { exit := 0,
            stdout := Text.ofLines [Text.Json.render (.object [("exit_code", .number 0),
              ("output", .text call.render), ("diagnostics", .array [])])] }) ∧
      options.callText .quoteSpanned {} "s" = .error ⟨.missingSpanArrow, {}⟩ ∧
      (run (options.inMode true true true) (.text "s")).map Outcome.exit = .ok 1 := by
  intro options text
  have hconfigured : options.Configured .quoteSpanned {} := ⟨rfl, "", rfl, rfl⟩
  have hrender : (options.callText .quoteSpanned {} text).toOption.map Forest.render =
      some ":: quote :: quote_spanned ! \x7bs => :: a :: B\x7d" := by
    decide +kernel
  have hlines : ((options.prepareText .quoteSpanned {} text).toOption.map fun prepared =>
      (prepared.2.scope {}).effective.map Binding.line) = some ["B => :: a :: B"] := by
    decide +kernel
  have hfails : options.callText .quoteSpanned {} "s" = .error ⟨.missingSpanArrow, {}⟩ := by
    rfl
  obtain ⟨call, hcall, hrender⟩ := Option.map_eq_some_iff.mp hrender
  have hcall := eq_ok_of_toOption hcall
  obtain ⟨expression, quote, hprepare, htail, hrun⟩ :=
    ((run_in_modes options text false true true).2.2 _ _ hconfigured).2 call hcall
  obtain ⟨_, _, -, -, hjson⟩ :=
    ((run_in_modes options text true false false).2.2 _ _ hconfigured).2 call hcall
  rw [hprepare] at hlines
  have hlines := Option.some.inj hlines
  refine ⟨hconfigured, ⟨call, quote.expand {}, hcall, hrender, htail, ?_, hjson⟩, hfails, ?_⟩
  · rw [hrun, ← hlines]
    rfl
  · exact ((run_in_modes options "s" true true true).1 1).mpr (.malformed hconfigured hfails)

end Cli

end Qualify
