import Qualify.Config
import Qualify.Text.Newline

/-!
# The prelude

Names that are bound without a declaration. They come in three bundles, each
written as plain declarations: the core bundle, what the standard library adds,
and what the 2021 edition adds. Prelude bindings rank below every declared one,
core first, then standard, then edition.
-/

namespace Qualify

/-- A named text of declarations. -/
structure Bundle where
  name : String
  source : String
deriving DecidableEq, Repr

namespace Bundle

/-- Read the declarations of a bundle. -/
def load (bundle : Bundle) : Except Fault (List Binding) :=
  match Declaration.ofText (some bundle.name) (Text.unifyNewlines bundle.source) with
  | .error error => .error (.invalidBundle bundle.name error)
  | .ok bindings => .ok bindings

/-- The bindings of a bundle that can be read. -/
def bindings (bundle : Bundle) : List Binding := bundle.load.toOption.getD []

/-- The bundle of the core library. -/
def core : Bundle where
  name := "core.rs"
  source := Text.ofLines [
    "// Foundational prelude bundle (`prelude_core`).",
    "use ::core::prelude::v1::\x7b",
    "    // marker traits",
    "    Copy, Send, Sized, Sync, Unpin,",
    "    // operators",
    "    Drop, Fn, FnMut, FnOnce,",
    "    drop,",
    "    Clone,",
    "    Eq, Ord, PartialEq, PartialOrd,",
    "    AsMut, AsRef, From, Into,",
    "    Default,",
    "    DoubleEndedIterator, ExactSizeIterator, Extend, IntoIterator, Iterator,",
    "    Option, Some, None,",
    "    Result, Ok, Err,",
    "\x7d;"]

/-- What the standard library adds. -/
def std : Bundle where
  name := "std.rs"
  source := Text.ofLines [
    "// Items the std prelude adds on top of core (`prelude_std`).",
    "use ::std::prelude::v1::\x7b",
    "    Box,",
    "    ToOwned,",
    "    String, ToString,",
    "    Vec,",
    "\x7d;"]

/-- What the 2021 edition adds. -/
def edition : Bundle where
  name := "rust_2021.rs"
  source := Text.ofLines [
    "// Edition 2021 additions (`prelude_2021`).",
    "use ::core::prelude::rust_2021::FromIterator;",
    "use ::core::prelude::rust_2021::\x7bTryFrom, TryInto\x7d;"]

end Bundle

namespace Prelude

/-- The bindings of the core bundle. -/
def core : List Binding := Bundle.core.bindings

/-- The bindings of the standard bundle. -/
def std : List Binding := Bundle.std.bindings

/-- The bindings of the edition bundle. -/
def edition : List Binding := Bundle.edition.bindings

/-- The bindings of a selection of bundles, in order of rank. Without `withStd`
the standard bundle is left out and the others stay. -/
def bindings (selection : Selection) (withStd : Bool) : List Binding :=
  (if selection.core then core else []) ++
    ((if selection.std && withStd then std else []) ++ if selection.edition then edition else [])

/-- A flag as it is shown to a user. -/
def flag (value : Bool) : String := if value then "True" else "False"

/-- A selection and the number of its bindings, as they are shown to a user. -/
def describe (selection : Selection) : String :=
  "PreludeRegistry(PreludeConfig(include_core=" ++ flag selection.core ++ ", include_std=" ++
    flag selection.std ++ ", include_edition_2021=" ++ flag selection.edition ++ "), " ++
    toString (bindings selection true).length ++ " bindings)"

end Prelude

end Qualify
