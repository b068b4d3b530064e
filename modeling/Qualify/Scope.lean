import Qualify.Prelude

/-!
# Scopes

A `Scope` is what names resolve to in a body: the declared bindings in order,
then the prelude. The first binding of a name is the one that counts. Two
declarations are switches rather than bindings: `use no_prelude;` drops the
prelude and `use no_std;` its standard bundle.
-/

namespace Qualify

/-- Whether a binding is the switch `name`: the path of that one name, bound
under it. -/
def Binding.isSwitch (name : String) (binding : Binding) : Bool :=
  binding.name.text = name &&
    match binding.path with
    | [.name ident] => ident.text = name
    | _ => false

/-- The name of the switch that drops the prelude. -/
def noPrelude : String := "no_prelude"

/-- The name of the switch that drops the standard bundle. -/
def noStd : String := "no_std"

/-- The switch that drops the prelude, as a binding. -/
def Binding.noPrelude : Binding :=
  ⟨{ text := Qualify.noPrelude }, [.name { text := Qualify.noPrelude }]⟩

/-- Declared bindings with the switches taken out, and what the switches leave on. -/
structure Declared where
  bindings : List Binding
  prelude : Bool
  std : Bool
deriving DecidableEq, Repr

/-- Take the switches out of declared bindings. -/
def Declared.ofBindings (bindings : List Binding) : Declared where
  bindings := bindings.filter fun binding =>
    !binding.isSwitch noPrelude && !binding.isSwitch noStd
  prelude := !bindings.any (Binding.isSwitch noPrelude)
  std := !bindings.any (Binding.isSwitch noStd)

/-- What names resolve to. -/
structure Scope where
  declared : List Binding
  prelude : List Binding
deriving DecidableEq, Repr

namespace Scope

/-- The scope of declared bindings under a configuration. -/
def ofBindings (bindings : List Binding) (config : Config) : Scope :=
  let declared := Declared.ofBindings bindings
  { declared := declared.bindings
    prelude :=
      if declared.prelude && config.prelude.core then
        Prelude.bindings config.prelude declared.std
      else [] }

/-- All bindings, in order of rank. -/
def all (scope : Scope) : List Binding := scope.declared ++ scope.prelude

/-- The binding a name resolves to: the first of that name. -/
def lookup? (scope : Scope) (name : String) : Option Binding :=
  scope.all.find? fun binding => binding.name.text = name

/-- Bindings without those whose name is in `seen` or occurs earlier. -/
def firsts (seen : List String) : List Binding → List Binding
  | [] => []
  | binding :: rest =>
    if seen.contains binding.name.text then firsts seen rest
    else binding :: firsts (binding.name.text :: seen) rest

/-- The bindings that some name resolves to, in order of rank. -/
def effective (scope : Scope) : List Binding := firsts [] scope.all

end Scope

end Qualify
