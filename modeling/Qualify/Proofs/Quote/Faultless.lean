import Qualify.Proofs.Qualifier.Buffer
import Qualify.Proofs.Quote.Faithful
import Qualify.Proofs.Scope.Loading

/-!
# No body meets a fault

Declarations are read with cursors and frames that can run past their end, the prelude
is loaded from bundles that could be malformed, and names are qualified with buffers
that could be empty and with paths that could have no segments. Put together from such
parts, expanding a body still comes to what `expand` and `Flavor.expand` come to: trees,
or the refusal of malformed declarations, and never a fault (`faultless`).

## Main definitions

- `Cursor.splitSpan` — a span expression taken off a level tree by tree
- `expandChecked`, `Flavor.expandChecked` — expansion with the parts that have a domain
- `Faultless` — what holds of a body under a configuration
-/

namespace Qualify

/-! ### Span expressions -/

namespace Cursor

/-- Take the trees in front of `=>` and the `=>` itself, with `expression` taken so
far. -/
def splitSpan (expression : Forest) (cursor : Cursor) : Checked (Forest × Cursor) :=
  if cursor.isEmpty then refuse .missingSpanArrow cursor.span
  else
    match cursor.accept? ['=', '>'] with
    | some next =>
      if expression.isEmpty then refuse .missingSpanExpression cursor.span
      else return (expression, next)
    | none =>
      match _ : cursor.advance with
      | .error fault => .error (.fault fault)
      | .ok (tree, next) => splitSpan (expression ++ [tree]) next
termination_by cursor.weight
decreasing_by exact weight_lt_of_advance ‹_›

theorem splitSpan_eq (taken : Forest) (cursor : Cursor) :
    cursor.splitSpan taken =
      if cursor.isEmpty then refuse .missingSpanArrow cursor.span
      else
        match cursor.accept? ['=', '>'] with
        | some next =>
          if taken.isEmpty then refuse .missingSpanExpression cursor.span
          else return (taken, next)
        | none => Checked.ofFault cursor.advance >>= fun (tree, behind) =>
          behind.splitSpan (taken ++ [tree]) := by
  rw [splitSpan]
  split
  · rfl
  split
  · rfl
  split
  · next hadvance =>
    rw [hadvance]
    rfl
  · next hadvance =>
    rw [hadvance]
    rfl

/-- What a cursor comes to when the arrow on its level is known, with trees taken
before. -/
def settleSpan (cursor : Cursor) (taken trees : Forest) : Checked (Forest × Cursor) :=
  match splitArrow? trees with
  | none => refuse .missingSpanArrow cursor.stop
  | some (expression, after) =>
    if (taken ++ expression).isEmpty then
      refuse .missingSpanExpression (Declaration.spanAt cursor.stop trees)
    else return (taken ++ expression, cursor.leave after)

theorem splitSpan_leave {cursor : Cursor} {trees : Forest} (h : trees <:+ cursor.level)
    (taken : Forest) : (cursor.leave trees).splitSpan taken = cursor.settleSpan taken trees := by
  induction trees generalizing taken with
  | nil =>
    rw [splitSpan_eq, isEmpty, left_leave_of_suffix h, span_leave h]
    rfl
  | cons tree rest ih =>
    have hrest := (List.suffix_cons tree rest).trans h
    rw [splitSpan_eq, isEmpty, left_leave_of_suffix h, List.isEmpty_cons, if_neg Bool.false_ne_true,
      accept?_leave _ h, span_leave h, settleSpan, splitArrow?]
    by_cases harrow : Forest.startsWith ['=', '>'] (tree :: rest) = true
    · simp only [if_pos harrow, List.append_nil]
      rfl
    · simp only [if_neg harrow, advance_leave h, Checked.ofFault_ok, Checked.ok_bind, ih hrest,
        settleSpan]
      cases splitArrow? rest with
      | none => rfl
      | some value => simp

theorem splitSpan_start (trees : Forest) :
    Cursor.splitSpan [] { level := trees } =
      (Checked.ofRefusal ((Qualify.splitSpan {} trees).mapError (·.error))).map
        fun (expression, after) => (expression, Cursor.leave { level := trees } after) := by
  have hsplit := @splitSpan_leave { level := trees } trees List.suffix_rfl []
  rw [leave_start] at hsplit
  rw [hsplit, settleSpan, Qualify.splitSpan]
  cases splitArrow? trees with
  | none => rfl
  | some value =>
    obtain ⟨expression, after⟩ := value
    cases expression <;> rfl

end Cursor

/-! ### Expansion -/

/-- Qualify the names of a tail in the scope of bindings. -/
def Quote.expandChecked (quote : Quote) (config : Config) : Checked Forest := do
  let scope ← Checked.ofFault (Scope.checked quote.bindings config)
  Checked.ofFault (Qualifier.Buffered.rewrite (.ofScope scope config) quote.tail)

/-- Split what is left of a level into its declarations and its tail. -/
def Cursor.quote (cursor : Cursor) (style : Style) : Checked Quote := do
  let (bindings, cursor) ← cursor.leading style
  return ⟨bindings, cursor.left⟩

/-- Strip the declarations off a body and qualify the names of its tail. -/
def expandChecked (config : Config) (trees : Forest) : Checked Forest := do
  let quote ← Cursor.quote { level := trees } config.style
  quote.expandChecked config

namespace Flavor

/-- The call of the quoting macro on a span expression and an expanded tail. -/
def wrapChecked (flavor : Flavor) (expression tail : Forest) : Checked Forest := do
  let path ← Checked.ofFault flavor.path.render
  let arrow := if flavor.isSpanned then Forest.operator ['=', '>'] else []
  return path ++ [.punct { text := "!" }, .group .brace (expression ++ (arrow ++ tail)) {}]

/-- Take off the span expression, which only spanned flavors have. -/
def splitChecked (flavor : Flavor) (trees : Forest) : Checked (Forest × Cursor) :=
  if flavor.isSpanned then Cursor.splitSpan [] { level := trees }
  else return ([], { level := trees })

/-- Expand a body and wrap it into the call of the quoting macro. -/
def expandChecked (flavor : Flavor) (config : Config) (noPrelude : Bool) (trees : Forest) :
    Checked Forest := do
  let (expression, cursor) ← flavor.splitChecked trees
  let quote ← cursor.quote config.style
  let tail ← (if noPrelude then quote.withoutPrelude else quote).expandChecked config
  flavor.wrapChecked expression tail

end Flavor

/-! ### No faults -/

theorem Flavor.splitChecked_eq (flavor : Flavor) (trees : Forest) :
    flavor.splitChecked trees =
      (Checked.ofRefusal (flavor.split trees)).map fun (expression, body) =>
        (expression, Cursor.leave { level := trees } body) := by
  rw [splitChecked, split]
  split
  · exact Cursor.splitSpan_start trees
  · simp only [Checked.ofRefusal_ok, Except.map, Cursor.leave_start]
    rfl

theorem Flavor.suffix_of_split {flavor : Flavor} {trees expression body : Forest}
    (h : flavor.split trees = .ok (expression, body)) : body <:+ trees := by
  rcases flavor.exists_of_split h with ⟨-, -, rfl⟩ | ⟨-, equals, greater, rfl⟩
  · exact List.suffix_rfl
  · exact ⟨expression ++ [.punct equals, .punct greater], by simp⟩

/-- What is left of a level is split as the recursion splits it. -/
theorem Cursor.quote_leave (style : Style) {level trees : Forest} (h : trees <:+ level) :
    (Cursor.leave { level } trees).quote style = Checked.ofRefusal (Quote.read style trees) := by
  rw [Cursor.quote, Quote.read, @Cursor.leading_leave style { level } trees h]
  cases hleading : Declaration.leading style {} trees with
  | error failure => rfl
  | ok value =>
    obtain ⟨bindings, left⟩ := value
    have hleft := Declaration.suffix_of_leading hleading
    rw [Cursor.settle, Checked.ok_bind]
    dsimp only
    rw [@Cursor.left_leave_of_suffix { level } left (hleft.trans h)]
    rfl

namespace Quote

/-- All bindings of a quote are sound. -/
def Sound (quote : Quote) : Prop := ∀ binding ∈ quote.bindings, binding.Sound

theorem sound_of_read {style : Style} {trees : Forest} {quote : Quote}
    (h : Quote.read style trees = .ok quote) : quote.Sound :=
  Declaration.sound_of_leading (Quote.leading_of_read h)

theorem Sound.withoutPrelude {quote : Quote} (h : quote.Sound) : quote.withoutPrelude.Sound := by
  intro binding hmem
  rcases List.mem_cons.mp hmem with rfl | hmem
  · exact ⟨nofun, List.forall_mem_singleton.mpr (by decide), List.forall_mem_singleton.mpr trivial⟩
  · exact h binding hmem

theorem Sound.choose {quote : Quote} (h : quote.Sound) (noPrelude : Bool) :
    (if noPrelude then quote.withoutPrelude else quote).Sound := by
  cases noPrelude with
  | false => exact h
  | true => exact h.withoutPrelude

theorem Sound.renders {quote : Quote} (h : quote.Sound) (config : Config) :
    Qualifier.Renders (quote.scope config) := by
  intro binding hmem
  exact (Scope.sound_ofBindings config h binding hmem).render

theorem Sound.expandChecked {quote : Quote} (h : quote.Sound) (config : Config) :
    quote.expandChecked config = .ok (quote.expand config) := by
  rw [Quote.expandChecked, Scope.checked_eq_ok, Checked.ofFault_ok, Checked.ok_bind,
    Qualifier.Buffered.rewrite_eq_ok (h.renders config), Checked.ofFault_ok]
  rfl

end Quote

theorem expandChecked_eq (config : Config) (trees : Forest) :
    expandChecked config trees = Checked.ofRefusal (expand config trees) := by
  have hquote := Cursor.quote_leave config.style (List.suffix_rfl (l := trees))
  rw [Cursor.leave_start] at hquote
  rw [expandChecked, hquote, expand]
  cases hread : Quote.read config.style trees with
  | error error => rfl
  | ok quote => exact (Quote.sound_of_read hread).expandChecked config

theorem Flavor.wrapChecked_eq (flavor : Flavor) (expression tail : Forest) :
    flavor.wrapChecked expression tail = .ok (flavor.wrap expression tail) := rfl

theorem Flavor.expandChecked_eq (flavor : Flavor) (config : Config) (noPrelude : Bool)
    (trees : Forest) :
    flavor.expandChecked config noPrelude trees =
      Checked.ofRefusal (flavor.expand config noPrelude trees) := by
  rw [Flavor.expandChecked, splitChecked_eq, Flavor.expand, prepare]
  cases hsplit : flavor.split trees with
  | error error => rfl
  | ok value =>
    obtain ⟨expression, body⟩ := value
    simp only [Checked.ofRefusal_ok, Except.map, Checked.ok_bind,
      Cursor.quote_leave config.style (suffix_of_split hsplit)]
    cases hread : Quote.read config.style body with
    | error error => rfl
    | ok quote =>
      have hsound := (Quote.sound_of_read hread).choose noPrelude
      simp only [Checked.ofRefusal_ok, Checked.ok_bind, hsound.expandChecked config,
        wrapChecked_eq]

/-- What holds of a body under a configuration, whatever its trees are. -/
structure Faultless (config : Config) (trees : Forest) : Prop where
  /-- Declarations of every style are read, or refused. -/
  leading : ∀ style stop, Cursor.leading style { level := trees, stop } =
    Cursor.settle { level := trees, stop } (Declaration.leading style stop trees)
  /-- The body is expanded, or its declarations are refused. -/
  expand : expandChecked config trees = Checked.ofRefusal (expand config trees)
  /-- So it is through every flavor, with and without the prelude. -/
  flavors : ∀ flavor noPrelude, Flavor.expandChecked flavor config noPrelude trees =
    Checked.ofRefusal (flavor.expand config noPrelude trees)
  /-- The paths that declarations bind have segments, and none of them is `self`. -/
  paths : ∀ style stop bindings left,
    Declaration.leading style stop trees = .ok (bindings, left) →
      ∀ binding ∈ bindings, binding.path ≠ [] ∧ ∀ segment ∈ binding.path, segment.isSelf = false
  /-- While a tail is qualified, no open level holds back anything but the `$`, or the `$`
  and the tick, that its mode waits with. -/
  buffers : ∀ quote (noPrelude : Bool), Quote.read config.style trees = .ok quote →
    ∀ events, events <+: Forest.events quote.tail →
      ∃ pass, Qualifier.Buffered.run (.ofScope
          ((if noPrelude then quote.withoutPrelude else quote).scope config) config) events =
            .ok pass ∧ ∀ level ∈ pass.levels, level.Kept

/-- No body meets a fault under any configuration. -/
theorem faultless (config : Config) (trees : Forest) : Faultless config trees where
  leading style stop := Cursor.leading_start style stop trees
  expand := expandChecked_eq config trees
  flavors flavor noPrelude := flavor.expandChecked_eq config noPrelude trees
  paths style stop bindings left h := Declaration.bindable_of_leading h
  buffers := by
    intro quote noPrelude hread events _
    have hsound := (Quote.sound_of_read hread).choose noPrelude
    exact Qualifier.Buffered.exists_run_kept (hsound.renders config) events

/-- Behind `$'` both marks are held back. -/
theorem faultless_escaped_lifetime :
    let config : Config := { namespacing := true }
    let dollar : Punct := { text := "$" }
    let tick : Punct := { text := "'", spacing := .joint }
    let trees : Forest := [.punct dollar, .punct tick, .ident { text := "x" }]
    let qualifier := Qualifier.ofScope (Quote.withoutPrelude ⟨[], trees⟩ |>.scope config) config
    let events : List Event := [.token (.punct dollar), .token (.punct tick)]
    ∃ pass, Qualifier.Buffered.run qualifier events = .ok pass ∧
      pass.level = ⟨.dollarTick, [], [.punct dollar, .punct tick]⟩ ∧
      ∀ level ∈ pass.levels, level.Kept := by
  intro config dollar tick trees qualifier events
  have hread : Quote.read config.style trees = .ok ⟨[], trees⟩ := by
    rw [Quote.read, Declaration.leading]
    rfl
  obtain ⟨pass, hrun, hkept⟩ := (faultless config trees).buffers _ true hread events
    ⟨[.token (.ident { text := "x" })], rfl⟩
  refine ⟨pass, hrun, ?_, hkept⟩
  have hpass : Qualifier.Buffered.run qualifier events =
      .ok ⟨⟨.dollarTick, [], [.punct dollar, .punct tick]⟩, []⟩ := rfl
  cases hrun.symm.trans hpass
  rfl

end Qualify
