import Qualify.Qualifier

/-!
# Quotes

A body is `use` declarations and a tail. Expanding it qualifies the names of the
tail in the scope of the declarations. A `Flavor` wraps the expanded tail into a
call of one of four quoting macros; the body of a spanned flavor starts with a
span expression and `=>`, which are handed on as they are.

## Main definitions

- `Quote.read` — split a body into declarations and tail
- `Quote.expand` — the tail in the scope of the declarations
- `Flavor.expand` — the call of a quoting macro on an expanded body
- `EntryPoint` — a flavor, with or without the prelude, under the name it is
  called by
-/

namespace Qualify

/-- Declarations and the trees that follow them. -/
structure Quote where
  bindings : List Binding
  tail : Forest
deriving DecidableEq, Repr

namespace Quote

/-- Split a body into its declarations and its tail. -/
def read (style : Style) (trees : Forest) : Except SyntaxError Quote :=
  match Declaration.leading style {} trees with
  | .error failure => .error failure.error
  | .ok (bindings, tail) => .ok ⟨bindings, tail⟩

/-- The scope of the tail. -/
def scope (quote : Quote) (config : Config) : Scope := Scope.ofBindings quote.bindings config

/-- The tail with its names qualified. -/
def expand (quote : Quote) (config : Config) : Forest :=
  (Qualifier.ofScope (quote.scope config) config).qualify quote.tail

/-- A quote with the prelude switched off in front of its declarations. -/
def withoutPrelude (quote : Quote) : Quote :=
  { quote with bindings := .noPrelude :: quote.bindings }

end Quote

/-- Strip the declarations off a body and qualify the names of its tail. -/
def expand (config : Config) (trees : Forest) : Except SyntaxError Forest :=
  (Quote.read config.style trees).map (·.expand config)

/-- The quoting macros a body can be wrapped for. -/
inductive Flavor where
  | quote
  | quoteSpanned
  | parseQuote
  | parseQuoteSpanned
deriving DecidableEq, Repr, Inhabited

namespace Flavor

/-- All flavors, in the order they are listed. -/
def all : List Flavor := [quote, quoteSpanned, parseQuote, parseQuoteSpanned]

/-- The name of the quoting macro. -/
def name : Flavor → String
  | quote => "quote"
  | quoteSpanned => "quote_spanned"
  | parseQuote => "parse_quote"
  | parseQuoteSpanned => "parse_quote_spanned"

/-- The crate the quoting macro lives in. -/
def crate : Flavor → String
  | quote | quoteSpanned => "quote"
  | parseQuote | parseQuoteSpanned => "syn"

/-- Whether a body starts with a span expression. -/
def isSpanned : Flavor → Bool
  | quote | parseQuote => false
  | quoteSpanned | parseQuoteSpanned => true

/-- The flavor of a name. -/
def ofName (name : String) : Except Fault Flavor :=
  match all.find? fun flavor => flavor.name = name with
  | some flavor => .ok flavor
  | none => .error (.unknownFlavor name)

/-- The path of the quoting macro. -/
def path (flavor : Flavor) : Path :=
  [.name { text := flavor.crate }, .name { text := flavor.name }]

end Flavor

/-- The trees in front of the first `=>` of a level and those after it. -/
def splitArrow? : Forest → Option (Forest × Forest)
  | [] => none
  | tree :: rest =>
    if Forest.startsWith ['=', '>'] (tree :: rest) then some ([], rest.drop 1)
    else (splitArrow? rest).map fun (expression, after) => (tree :: expression, after)

/-- Split off the span expression in front of a body. -/
def splitSpan (stop : Span) (trees : Forest) : Except Failure (Forest × Forest) :=
  match splitArrow? trees with
  | none => .error ⟨⟨.missingSpanArrow, stop⟩, []⟩
  | some ([], _) => .error ⟨⟨.missingSpanExpression, Declaration.spanAt stop trees⟩, trees⟩
  | some (expression, after) => .ok (expression, after)

namespace Flavor

/-- Split a body into its span expression, which only spanned flavors have, and
the rest. -/
def split (flavor : Flavor) (trees : Forest) : Except SyntaxError (Forest × Forest) :=
  if flavor.isSpanned then (splitSpan {} trees).mapError (·.error) else .ok ([], trees)

/-- Split a body into its span expression, declarations and tail. -/
def prepare (flavor : Flavor) (config : Config) (noPrelude : Bool) (trees : Forest) :
    Except SyntaxError (Forest × Quote) :=
  match flavor.split trees with
  | .error error => .error error
  | .ok (expression, body) =>
    match Quote.read config.style body with
    | .error error => .error error
    | .ok read => .ok (expression, if noPrelude then read.withoutPrelude else read)

/-- The call of the quoting macro on a span expression and an expanded tail. -/
def wrap (flavor : Flavor) (expression tail : Forest) : Forest :=
  let arrow := if flavor.isSpanned then Forest.operator ['=', '>'] else []
  flavor.path.trees ++
    [.punct { text := "!" }, .group .brace (expression ++ (arrow ++ tail)) {}]

/-- Expand a body and wrap it into the call of the quoting macro. -/
def expand (flavor : Flavor) (config : Config) (noPrelude : Bool) (trees : Forest) :
    Except SyntaxError Forest :=
  match flavor.prepare config noPrelude trees with
  | .error error => .error error
  | .ok (expression, read) => .ok (flavor.wrap expression (read.expand config))

end Flavor

/-- An entry point: a flavor, with or without the prelude. -/
structure EntryPoint where
  flavor : Flavor
  noPrelude : Bool
deriving DecidableEq, Repr

namespace EntryPoint

/-- All entry points. -/
def all : List EntryPoint :=
  [false, true].flatMap fun noPrelude => Flavor.all.map fun flavor => ⟨flavor, noPrelude⟩

/-- The name an entry point is called by. -/
def name (entry : EntryPoint) : String :=
  entry.flavor.name ++ "_use" ++ if entry.noPrelude then "_no_prelude" else ""

/-- The entry point of a name. -/
def ofName? (name : String) : Option EntryPoint := all.find? fun entry => entry.name = name

/-- Expand a body through an entry point. -/
def expand (entry : EntryPoint) (config : Config) (trees : Forest) : Except SyntaxError Forest :=
  entry.flavor.expand config entry.noPrelude trees

end EntryPoint

end Qualify
