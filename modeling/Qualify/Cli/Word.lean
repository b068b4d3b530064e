import Qualify.Text.Decimal

/-!
# Command-line words

The arguments of the command line, classified one by one: options, plain words,
and the `--` after which everything is plain. A long option may be cut short as
long as only one option starts that way. Every argument is classified before any
of them takes effect, so an ambiguous option is an error wherever it stands.
-/

namespace Qualify.Cli

/-- The options of the command line. -/
inductive Flag where
  | help
  | flavor
  | noPrelude
  | features
  | noDefaultFeatures
  | namespaceIdents
  | namespaceSeed
  | bareUse
  | tailOnly
  | dumpBindings
  | json
deriving DecidableEq, Repr

namespace Flag

/-- All options. -/
def all : List Flag :=
  [help, flavor, noPrelude, features, noDefaultFeatures, namespaceIdents, namespaceSeed, bareUse,
    tailOnly, dumpBindings, json]

/-- The full name of an option. -/
def name : Flag → String
  | help => "--help"
  | flavor => "--flavor"
  | noPrelude => "--no-prelude"
  | features => "--features"
  | noDefaultFeatures => "--no-default-features"
  | namespaceIdents => "--namespace-idents"
  | namespaceSeed => "--namespace-seed"
  | bareUse => "--bare-use"
  | tailOnly => "--tail-only"
  | dumpBindings => "--dump-bindings"
  | json => "--json"

/-- Whether an option takes a value. -/
def takesValue : Flag → Bool
  | flavor | features | namespaceSeed => true
  | _ => false

/-- The options whose name starts with `text`; a full name stands for itself alone. -/
def named (text : List Char) : List Flag :=
  match all.find? fun flag => flag.name.toList = text with
  | some flag => [flag]
  | none => all.filter fun flag => text.isPrefixOf flag.name.toList

end Flag

/-- Why the command line stops before it does anything: help was asked for, or the
arguments make no sense. -/
inductive Stop where
  | help
  | usage
deriving DecidableEq, Repr

/-- An argument, classified. -/
inductive Word where
  | plain (text : String)
  | separator
  | flag (flag : Flag) (attached : Option String)
  /-- The short option for help, with more characters attached. -/
  | shortHelp (attached : List Char)
  | unknown
deriving DecidableEq, Repr

namespace Word

/-- Whether a text after its minus sign reads as a number: digits, or a fraction
with or without digits before the point. A line feed at the end does not count. -/
def isNumber (text : List Char) : Bool :=
  let digits := if text.getLast? = some '\n' then text.dropLast else text
  match Text.decimalDigits digits with
  | (whole, []) => !whole.isEmpty
  | (_, '.' :: rest) =>
    match Text.decimalDigits rest with
    | (fraction, []) => !fraction.isEmpty
    | _ => false
  | _ => false

/-- An argument that starts with a minus sign and names no option. -/
def unnamed (text : List Char) : Word :=
  if isNumber (text.drop 1) || text.contains ' ' then .plain (String.ofList text) else .unknown

/-- Classify an argument that starts with two minus signs. -/
def classifyLong (text : List Char) : Except Stop Word :=
  let name := text.takeWhile (· ≠ '=')
  let attached := (text.drop name.length).tail?.map String.ofList
  match Flag.named name with
  | [only] => .ok (.flag only attached)
  | [] => .ok (unnamed text)
  | _ => .error .usage

/-- Classify an argument in front of `--`. -/
def classify (text : String) : Except Stop Word :=
  match text.toList with
  | '-' :: '-' :: rest => classifyLong ('-' :: '-' :: rest)
  | '-' :: 'h' :: rest => .ok (.shortHelp rest)
  | ['-'] => .ok (.plain text)
  | '-' :: rest => .ok (unnamed ('-' :: rest))
  | _ => .ok (.plain text)

/-- Classify arguments; everything after the first `--` is plain. -/
def classifyAll : List String → Except Stop (List Word)
  | [] => .ok []
  | text :: rest =>
    if text = "--" then .ok (.separator :: rest.map .plain)
    else
      match classify text with
      | .error stop => .error stop
      | .ok word => (classifyAll rest).map (word :: ·)

end Word

end Qualify.Cli
