import Qualify.Proofs.Declaration.Worklist
import Qualify.Proofs.Scope.Sound

/-!
# The prelude can be loaded

`Prelude.bindings` takes what a bundle binds and would take nothing from one that cannot
be read. Here a bundle that cannot be read is a fault, and so is a fault of the readers
on the way. The loop over frames reads a bundle as the recursion does
(`Bundle.checkedLoad_eq_load`), and all three bundles are read, so a scope is put
together as if nothing could go wrong (`Scope.checked_eq_ok`).

## Main definitions

- `Bundle.readsAll` — lines are read as declarations, and what they bind passes a test
- `Bundle.checkedLoad` — a bundle read with the loop over frames
- `Scope.checked` — the scope of declared bindings, with the prelude loaded
-/

namespace Qualify

theorem Declaration.suffix_of_leading {style : Style} {stop : Span} {trees left : Forest}
    {bindings : List Binding} (h : leading style stop trees = .ok (bindings, left)) :
    left <:+ trees := by
  obtain ⟨-, front, rfl⟩ := within_of_leading h List.infix_rfl
  exact List.suffix_append front left

theorem Text.toList_unifyNewlines_ofLines (lines : List String) :
    (Text.unifyNewlines (Text.ofLines lines)).toList =
      Text.unifyChars (lines.flatMap fun line => line.toList ++ ['\n']) := by
  rw [Text.unifyNewlines, String.toList_ofList, Text.ofLines, String.toList_join, List.flatMap_map]
  simp only [String.toList_append]
  rfl

namespace Bundle

/-- The characters of lines with their line breaks, cut into pieces. -/
def scanLines (lines : List String) : Scan :=
  Piece.scan (Text.unifyChars (lines.flatMap fun line => line.toList ++ ['\n']))

/-- Whether lines are read as declarations with nothing behind them, and all that they bind
passes a test. -/
def readsAll (test : Binding → Bool) (name : String) (lines : List String) : Bool :=
  match Forest.nest (some name) [] [] (scanLines lines).pieces, (scanLines lines).stuck with
  | .ok ([], level), none =>
    match Declaration.leading .bare {} level.reverse with
    | .ok (bindings, []) => bindings.all test
    | _ => false
  | _, _ => false

/-- A bundle whose lines are nested into one level and declare its bindings is loaded. -/
theorem load_of_nest {bundle : Bundle} {lines : List String} {level : List Tree}
    {bindings : List Binding} (hsource : bundle.source = Text.ofLines lines)
    (hnest : Forest.nest (some bundle.name) [] [] (scanLines lines).pieces = .ok ([], level))
    (hstuck : (scanLines lines).stuck = none)
    (hleading : Declaration.leading .bare {} level.reverse = .ok (bindings, [])) :
    bundle.load = .ok bindings := by
  have hlex : Forest.lex (some bundle.name) (Text.unifyNewlines bundle.source) =
      .ok level.reverse := by
    rw [Forest.lex, hsource, Text.toList_unifyNewlines_ofLines, ← scanLines, hnest, hstuck]
  rw [load, Declaration.ofText, hlex]
  dsimp only
  rw [hleading]

/-- A bundle whose lines are read so is loaded, and all that it binds passes the test. -/
theorem load_of_readsAll {bundle : Bundle} {test : Binding → Bool} {lines : List String}
    (hsource : bundle.source = Text.ofLines lines)
    (h : readsAll test bundle.name lines = true) :
    bundle.load = .ok bundle.bindings ∧ ∀ binding ∈ bundle.bindings, test binding = true := by
  unfold readsAll at h
  split at h
  · next level hnest hstuck =>
    split at h
    · next bindings hleading =>
      have hload := load_of_nest hsource hnest hstuck hleading
      have hbindings : bundle.bindings = bindings := by
        rw [Bundle.bindings, hload]
        rfl
      rw [hbindings]
      exact ⟨hload, List.all_eq_true.mp h⟩
    · cases h
  · cases h

theorem load_eq_ok {bundle : Bundle} {lines : List String}
    (hsource : bundle.source = Text.ofLines lines)
    (h : readsAll (fun _ => true) bundle.name lines = true) :
    bundle.load = .ok bundle.bindings :=
  (load_of_readsAll hsource h).1

-- A bundle is evaluated from the characters of its lines: taking the characters of the
-- whole text is what costs.
theorem load_core : core.load = .ok Prelude.core := load_eq_ok rfl (by decide +kernel)

theorem load_std : std.load = .ok Prelude.std := load_eq_ok rfl (by decide +kernel)

theorem load_edition : edition.load = .ok Prelude.edition := load_eq_ok rfl (by decide +kernel)

/-- Read the declarations of a bundle with the loop over frames. -/
def checkedLoad (bundle : Bundle) : Except Fault (List Binding) :=
  match Forest.lex (some bundle.name) (Text.unifyNewlines bundle.source) with
  | .error error => .error (.invalidBundle bundle.name error)
  | .ok trees =>
    match Cursor.leading .bare { level := trees } with
    | .error (.fault fault) => .error fault
    | .error (.refusal error) => .error (.invalidBundle bundle.name error)
    | .ok (bindings, cursor) =>
      if cursor.isEmpty then .ok bindings
      else .error (.invalidBundle bundle.name ⟨.missingUse (.ofForest cursor.left), cursor.span⟩)

theorem checkedLoad_eq_load (bundle : Bundle) : bundle.checkedLoad = bundle.load := by
  rw [checkedLoad, load, Declaration.ofText]
  cases Forest.lex (some bundle.name) (Text.unifyNewlines bundle.source) with
  | error error => rfl
  | ok trees =>
    dsimp only
    rw [Cursor.leading_start]
    cases hleading : Declaration.leading .bare {} trees with
    | error failure => rfl
    | ok value =>
      obtain ⟨bindings, left⟩ := value
      have hsuffix : left <:+ ({ level := trees } : Cursor).level :=
        Declaration.suffix_of_leading hleading
      simp only [Cursor.settle, Cursor.isEmpty, Cursor.left_leave_of_suffix hsuffix,
        Cursor.span_leave hsuffix]
      cases left <;> rfl

end Bundle

namespace Prelude

/-- The bindings of a bundle if it is selected. -/
def loadIf (selected : Bool) (bundle : Bundle) : Except Fault (List Binding) :=
  if selected then bundle.checkedLoad else return []

/-- The bindings of a selection of bundles, each of them loaded. -/
def checked (selection : Selection) (withStd : Bool) : Except Fault (List Binding) := do
  let core ← loadIf selection.core .core
  let std ← loadIf selection.std .std
  let edition ← loadIf selection.edition .edition
  return core ++ ((if withStd then std else []) ++ edition)

theorem loadIf_eq_ok (selected : Bool) {bundle : Bundle} {bindings : List Binding}
    (h : bundle.load = .ok bindings) :
    loadIf selected bundle = .ok (if selected then bindings else []) := by
  cases selected with
  | false => rfl
  | true =>
    rw [loadIf, bundle.checkedLoad_eq_load]
    exact h

theorem checked_eq_ok (selection : Selection) (withStd : Bool) :
    checked selection withStd = .ok (bindings selection withStd) := by
  have hstd : (if withStd then if selection.std then std else [] else []) =
      if selection.std && withStd then std else [] := by
    cases withStd <;> simp
  rw [checked, loadIf_eq_ok _ Bundle.load_core, loadIf_eq_ok _ Bundle.load_std,
    loadIf_eq_ok _ Bundle.load_edition, bindings, ← hstd]
  rfl

end Prelude

namespace Scope

/-- The scope of declared bindings under a configuration, with the prelude loaded if it
is in force. -/
def checked (bindings : List Binding) (config : Config) : Except Fault Scope :=
  let declared := Declared.ofBindings bindings
  if declared.prelude && config.prelude.core then do
    let prelude ← Prelude.checked config.prelude declared.std
    return ⟨declared.bindings, prelude⟩
  else return ⟨declared.bindings, []⟩

theorem checked_eq_ok (bindings : List Binding) (config : Config) :
    checked bindings config = .ok (ofBindings bindings config) := by
  rw [checked, ofBindings, Prelude.checked_eq_ok]
  split <;> rfl

end Scope

end Qualify
