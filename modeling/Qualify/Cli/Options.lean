import Qualify.Cli.Word
import Qualify.Quote

/-!
# Command-line options

`Options.parse` reads the arguments of the command line. Options and the source
may come in any order, and a value follows its option or is attached to it with
`=`. The last of several settings counts. An attached `--` gives the option no
value. Help, and arguments that make no sense, stop the command line where they
are met; words that nothing asks for stop it at the end.
-/

namespace Qualify.Cli

/-- What the command line was asked to do. The flavor and the features are `none`
where their option was given no value. -/
structure Options where
  source : String := "-"
  flavor : Option Flavor := some .quote
  noPrelude : Bool := false
  features : Option String := some ""
  noDefaultFeatures : Bool := false
  namespaceIdents : Bool := false
  namespaceSeed : Option String := none
  bareUse : Bool := false
  tailOnly : Bool := false
  dumpBindings : Bool := false
  json : Bool := false
deriving DecidableEq, Repr

/-- Whether the source has been named. `fresh` says that no option has come since. -/
inductive SourceSlot where
  | free
  | fresh
  | taken
deriving DecidableEq, Repr

/-- The state of reading words: the options so far, the source, and whether a word
was met that nothing asks for. -/
structure Progress where
  options : Options := {}
  slot : SourceSlot := .free
  surplus : Bool := false
deriving DecidableEq, Repr

namespace Progress

/-- Take a plain word: the first names the source. -/
def plain (progress : Progress) (text : String) : Progress :=
  match progress.slot with
  | .free =>
    { progress with options := { progress.options with source := text }, slot := .fresh }
  | _ => { progress with surplus := true }

/-- Take `--`. It goes unnoticed unless the source was named before another option. -/
def separator (progress : Progress) : Progress :=
  match progress.slot with
  | .free => progress
  | .fresh => { progress with slot := .taken }
  | .taken => { progress with surplus := true }

/-- No option has come since the source was named, until now. -/
def age (progress : Progress) : Progress :=
  match progress.slot with
  | .fresh => { progress with slot := .taken }
  | _ => progress

/-- The value that is attached to an option: none if it is `--`. -/
def attachedValue (text : String) : Option String := if text = "--" then none else some text

/-- An option that takes a value takes effect. Without a value there is no flavor to
look up, and the namespace seed is empty. -/
def setValue (progress : Progress) (flag : Flag) (value : Option String) :
    Except Stop Progress :=
  let options := progress.options
  match flag with
  | .flavor =>
    match value.map Flavor.ofName with
    | none => .ok { progress with options := { options with flavor := none } }
    | some (.ok flavor) => .ok { progress with options := { options with flavor := some flavor } }
    | some (.error _) => .error .usage
  | .features => .ok { progress with options := { options with features := value } }
  | .namespaceSeed =>
    .ok { progress with options := { options with namespaceSeed := some (value.getD "") } }
  | _ => .error .usage

/-- An option without a value takes effect. -/
def setFlag (progress : Progress) (flag : Flag) : Except Stop Progress :=
  let options := progress.options
  match flag with
  | .help => .error .help
  | .noPrelude => .ok { progress with options := { options with noPrelude := true } }
  | .noDefaultFeatures =>
    .ok { progress with options := { options with noDefaultFeatures := true } }
  | .namespaceIdents => .ok { progress with options := { options with namespaceIdents := true } }
  | .bareUse => .ok { progress with options := { options with bareUse := true } }
  | .tailOnly => .ok { progress with options := { options with tailOnly := true } }
  | .dumpBindings => .ok { progress with options := { options with dumpBindings := true } }
  | .json => .ok { progress with options := { options with json := true } }
  | .flavor | .features | .namespaceSeed => .error .usage

/-- More characters after the short option for help: each must ask for help again. -/
def helpAgain (letters : List Char) : Stop :=
  if letters.all (· = 'h') then .help else .usage

/-- The short option for help, possibly repeated. The repetitions may be attached
with `=`. -/
def shortHelp : List Char → Stop
  | '=' :: letter :: letters => helpAgain (letter :: letters)
  | letters => helpAgain letters

/-- Read words from left to right. -/
def read (progress : Progress) : List Word → Except Stop Progress
  | [] => .ok progress
  | .plain text :: rest => (progress.plain text).read rest
  | .separator :: rest => progress.separator.read rest
  | .unknown :: rest => { progress.age with surplus := true }.read rest
  | .shortHelp attached :: _ => .error (shortHelp attached)
  | .flag flag attached :: rest =>
    if flag.takesValue then
      match attached, rest with
      | some text, rest =>
        match progress.age.setValue flag (attachedValue text) with
        | .error stop => .error stop
        | .ok next => next.read rest
      | none, .plain text :: rest =>
        match progress.age.setValue flag (some text) with
        | .error stop => .error stop
        | .ok next => next.read rest
      | none, _ => .error .usage
    else if attached.isSome then .error .usage
    else
      match progress.age.setFlag flag with
      | .error stop => .error stop
      | .ok next => next.read rest

end Progress

namespace Options

/-- Read the arguments of the command line. -/
def parse (arguments : List String) : Except Stop Options :=
  match Word.classifyAll arguments with
  | .error stop => .error stop
  | .ok words =>
    match Progress.read {} words with
    | .error stop => .error stop
    | .ok progress => if progress.surplus then .error .usage else .ok progress.options

end Options

end Qualify.Cli
