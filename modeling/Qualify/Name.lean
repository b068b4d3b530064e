import Qualify.Config
import Qualify.Template

/-!
# Namespaced names

Names made from texts rather than from tokens. A leading `$` is replaced by the
namespace root of a configuration, and a leading `$$` stands for one `$`;
`Name.format` then fills the rest as a template.
-/

namespace Qualify

/-- The ways making a name can fail. -/
inductive NameError where
  | config (error : ConfigError)
  | template (error : TemplateError)
deriving DecidableEq, Repr

namespace Name

/-- A text whose leading `$` is replaced by `root`; a leading `$$` stands for one
`$`. -/
def namespaced (root text : String) : String :=
  match text.toList with
  | '$' :: '$' :: rest => String.ofList ('$' :: rest)
  | '$' :: rest => root ++ String.ofList rest
  | _ => text

/-- Fill a template whose leading `$` stands for the namespace root. A caller hands over the
template as `fmt` and the configuration as `config`, next to the arguments that have keys, so
no argument ever has one of these two keys. `format` does not rely on it: what is proved of it
for all arguments covers those that a caller can hand over, and more. -/
def format (config : Config) (template : String) (arguments : Template.Arguments) :
    Except NameError String :=
  if config.namespacing then
    (Template.fill (namespaced config.namespaceRoot template) arguments).mapError .template
  else .error (.config .namespacingOff)

end Name

end Qualify
