import Qualify.Declaration
import Qualify.Diagnostic
import Qualify.Text.Blank

/-!
# Configuration

A `Config` says which bundles of the prelude are in force, whether `$name` is
namespaced and with which seed, and how declarations are introduced. A
`Selection` of bundles keeps two laws: the standard bundle brings the core
bundle with it, and the edition bundle needs the core bundle. Invalid choices
are rejected when the value is built (`Selection.select`, `Config.ofFeatures`).
-/

namespace Qualify

/-- The features a configuration can be built from. -/
inductive Feature where
  | core
  | std
  | edition
  | namespacing
deriving DecidableEq, Repr

namespace Feature

/-- The name a feature is asked for by. -/
def name : Feature → String
  | core => "prelude_core"
  | std => "prelude_std"
  | edition => "prelude_2021"
  | namespacing => "namespace_idents"

/-- All features, in the order they are listed. -/
def all : List Feature := [core, std, edition, namespacing]

/-- The features in force unless they are switched off. -/
def defaults : List Feature := [core, std, edition]

/-- The feature of a name. -/
def ofName? (name : String) : Option Feature := all.find? fun feature => feature.name = name

end Feature

/-- The ways a configuration can be invalid. -/
inductive ConfigError where
  /-- The edition bundle without a bundle it builds on. -/
  | editionAlone
  /-- A feature nobody knows. -/
  | unknownFeature (name : String)
  /-- Namespacing is asked for where it is switched off. -/
  | namespacingOff
deriving DecidableEq, Repr

namespace ConfigError

/-- The message of a configuration error. -/
def message : ConfigError → String
  | editionAlone =>
    Feature.edition.name ++ " only works when " ++ Feature.core.name ++ " or " ++
      Feature.std.name ++ " is enabled"
  | unknownFeature name =>
    "unknown feature '" ++ name ++ "' (known: " ++
      ", ".intercalate (Feature.all.map Feature.name) ++ ")"
  | namespacingOff =>
    "format_ident_namespaced requires the " ++ Feature.namespacing.name ++ " feature"

/-- The diagnostic of a configuration error. -/
def toDiagnostic (error : ConfigError) : Diagnostic where
  message := error.message
  code := some "configuration"
  phase := some "config"

end ConfigError

/-- The bundles of the prelude that are in force. -/
structure Selection where
  core : Bool := true
  std : Bool := true
  edition : Bool := true
  core_of_std : std = true → core = true := by decide
  core_of_edition : edition = true → core = true := by decide
deriving DecidableEq, Repr

namespace Selection

/-- No bundle at all. -/
def disabled : Selection where
  core := false
  std := false
  edition := false

/-- Select bundles. The standard bundle brings the core bundle with it. -/
def select (core std edition : Bool) : Except ConfigError Selection :=
  if h : edition = true → (core || std) = true then
    .ok {
      core := core || std
      std
      edition
      core_of_std := fun on => by simp [on]
      core_of_edition := h }
  else .error .editionAlone

end Selection

/-- How a body is expanded. -/
structure Config where
  prelude : Selection := {}
  namespacing : Bool := false
  seed : Option String := none
  style : Style := .pound
deriving DecidableEq, Repr

namespace Config

/-- The features that names stand for; blanks around a name do not count, and a
blank name stands for none. -/
def readFeatures : List String → Except ConfigError (List Feature)
  | [] => .ok []
  | name :: rest =>
    let name := Text.trim name
    if name = "" then readFeatures rest
    else
      match Feature.ofName? name with
      | none => .error (.unknownFeature name)
      | some feature => (readFeatures rest).map (feature :: ·)

/-- Build a configuration from the names of its features, with or without the
default ones. -/
def ofFeatures (names : List String) (defaults : Bool) (seed : Option String) (style : Style) :
    Except ConfigError Config :=
  match readFeatures names with
  | .error error => .error error
  | .ok features =>
    let chosen := if defaults then Feature.defaults ++ features else features
    match Selection.select (chosen.contains .core) (chosen.contains .std)
        (chosen.contains .edition) with
    | .error error => .error error
    | .ok prelude => .ok { prelude, namespacing := chosen.contains .namespacing, seed, style }

/-- The start of every namespaced name. -/
def namespaceBase : String := "__quote_use_"

/-- A character of a seed as it appears in names. -/
def seedChar (c : Char) : Char := if Terminal.isName c then c else '_'

/-- What a namespaced name starts with: the seed, if there is one, follows the
common start, with every character that no name can hold replaced by `_`. -/
def namespaceRoot (config : Config) : String :=
  match config.seed with
  | none => namespaceBase
  | some seed =>
    if seed = "" then namespaceBase
    else namespaceBase ++ String.ofList (seed.toList.map seedChar) ++ "_"

end Config

end Qualify
