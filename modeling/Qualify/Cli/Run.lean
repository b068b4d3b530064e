import Qualify.Cli.Files
import Qualify.Cli.Options

/-!
# The command line

`run` expands one body: it builds the configuration, reads the source, and
prints the expanded body or the diagnostic of what went wrong. The exit code is
0 for an expansion, 1 for a source that is unreadable or malformed, and 2 for an
invalid configuration. A run breaks off without an outcome when the source is no
text or when an option that it needs was given no value. The whole is a function
of the options and the content of the source.
-/

namespace Qualify.Cli

/-- What a run leaves behind. -/
structure Outcome where
  exit : Nat
  stdout : String := ""
  stderr : String := ""
deriving DecidableEq, Repr

/-- Why a run has no outcome. -/
inductive Breakdown where
  /-- The bytes of the source are no text. -/
  | undecodable
  /-- An option that the run needs has no value. -/
  | fault (fault : Fault)
deriving DecidableEq, Repr

namespace Options

/-- Whether the body comes from standard input. -/
def readsStdin (options : Options) : Bool := options.source = "-"

/-- The source as diagnostics name it. -/
def sourceName (options : Options) : String :=
  if options.readsStdin then "<stdin>" else options.source

/-- The file that the spans of the body name. -/
def file (options : Options) : Option String :=
  if options.readsStdin then none else some options.source

/-- The names of the features that are asked for, given the text that lists them. -/
def featureNames (options : Options) (features : String) : List String :=
  (Text.splitText ',' features).filter (Text.trim · ≠ "") ++
    if options.namespaceIdents then [Feature.namespacing.name] else []

/-- The namespace seed: the one that is asked for, else the stem of the file. -/
def seed (options : Options) : Option String :=
  match options.namespaceSeed with
  | some seed => some seed
  | none =>
    if options.sourceName = "<stdin>" then none
    else some (FileName.ofText options.sourceName).stem

/-- The configuration of the expansion, given the text that lists the features. -/
def config (options : Options) (features : String) : Except ConfigError Config :=
  Config.ofFeatures (options.featureNames features) (!options.noDefaultFeatures) options.seed
    (if options.bareUse then .bare else .pound)

/-- Report a diagnostic in the form that is asked for. -/
def report (options : Options) (exit : Nat) (diagnostic : Diagnostic) : Outcome :=
  let source := some options.sourceName
  if options.json then
    { exit
      stdout := Text.ofLines [Text.Json.render (.object [
        ("exit_code", .number exit),
        ("diagnostics", .array [diagnostic.toJson source])])] }
  else { exit, stderr := Text.ofLines [diagnostic.format source] }

/-- The diagnostic of a source that cannot be read. -/
def readDiagnostic (options : Options) (error : ReadError) : Diagnostic where
  message := "cannot read input: " ++ error.message (FileName.ofText options.source)
  code := some "io"
  phase := some "driver"

/-- The lines of the effective scope, if they are asked for. -/
def dump (options : Options) (config : Config) (quote : Quote) : String :=
  if options.dumpBindings then Text.ofLines ((quote.scope config).effective.map Binding.line)
  else ""

/-- The printed form of an expansion. -/
def print (options : Options) (text : String) : String :=
  Text.ofLines [
    if options.json then
      Text.Json.render (.object [
        ("exit_code", .number 0), ("output", .text text), ("diagnostics", .array [])])
    else text]

/-- The body of a text, split for a flavor. -/
def prepareText (options : Options) (flavor : Flavor) (config : Config) (text : String) :
    Except SyntaxError (Forest × Quote) :=
  (Forest.lex options.file text).bind (flavor.prepare config options.noPrelude)

/-- The call of the quoting macro on the body of a text. -/
def callText (options : Options) (flavor : Flavor) (config : Config) (text : String) :
    Except SyntaxError Forest :=
  (Forest.lex options.file text).bind (flavor.expand config options.noPrelude)

/-- The lines that are printed on the way, and the trees to print. The effective scope and
the tail are those of the split body; the call is made of the text once more. -/
def attempt (options : Options) (flavor : Flavor) (config : Config) (text : String) :
    String × Except SyntaxError Forest :=
  if options.dumpBindings || options.tailOnly then
    match options.prepareText flavor config text with
    | .error error => ("", .error error)
    | .ok (_, quote) =>
      (options.dump config quote,
        if options.tailOnly then .ok (quote.expand config)
        else options.callText flavor config text)
  else ("", options.callText flavor config text)

/-- Expand a body that was read. -/
def expandText (options : Options) (flavor : Flavor) (config : Config) (text : String) :
    Outcome :=
  match options.attempt flavor config text with
  | (dumped, .error error) =>
    let outcome := options.report 1 error.toDiagnostic
    { outcome with stderr := dumped ++ outcome.stderr }
  | (dumped, .ok trees) =>
    { exit := 0, stdout := options.print trees.render, stderr := dumped }

end Options

/-- Run the command line on the content of its source. The features are needed
first, for the configuration; the flavor only once the source was read. -/
def run (options : Options) (content : Content) : Except Breakdown Outcome :=
  match options.features with
  | none => .error (.fault .missingFeatures)
  | some features =>
    match options.config features with
    | .error error => .ok (options.report 2 error.toDiagnostic)
    | .ok config =>
      match content, options.flavor with
      | .undecodable, _ => .error .undecodable
      | .unreadable error, _ => .ok (options.report 1 (options.readDiagnostic error))
      | .text _, none => .error (.fault .missingFlavor)
      | .text text, some flavor => .ok (options.expandText flavor config text)

end Qualify.Cli
