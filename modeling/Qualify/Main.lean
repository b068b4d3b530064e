import Qualify.Cli.Run

/-!
# Entry point of the command line

Reads the source from standard input or from a file, hands its content to
`Cli.run`, and prints what that leaves behind.
-/

namespace Qualify.Cli

/-- The number of a system error, which some calls give with its sign turned. -/
def errorNumber (code : UInt32) : Nat := min code.toNat (0x100000000 - code.toNat)

/-- The reading error that the number of a system error stands for. -/
def readErrorOfNumber (number : Nat) (details : String) : ReadError :=
  ([.missing, .notDirectory, .isDirectory, .nameTooLong].find? (·.number = number)).getD
    (.system number details)

/-- The reading error that an error of the system stands for. -/
def readErrorOf : IO.Error → ReadError
  | .noFileOrDirectory _ code details | .inappropriateType _ code details
  | .invalidArgument _ code details | .permissionDenied _ code details =>
    readErrorOfNumber (errorNumber code) details
  | error => .system 5 (toString error)

/-- The content of the source. -/
def readSource (options : Options) : IO Content := do
  if options.readsStdin then
    let bytes ← (← IO.getStdin).readBinToEnd
    return .ofBytes bytes
  else
    try
      let bytes ← IO.FS.readBinFile (FileName.ofText options.source).text
      return .ofBytes bytes
    catch error => return .unreadable (readErrorOf error)

end Qualify.Cli

/-- Run the command line. -/
def main (arguments : List String) : IO UInt32 := do
  match Qualify.Cli.Options.parse arguments with
  | .error .help => return 0
  | .error .usage => return 2
  | .ok options =>
    match Qualify.Cli.run options (← Qualify.Cli.readSource options) with
    | .error .undecodable => return 1
    | .error (.fault fault) =>
      IO.eprintln fault.message
      return 1
    | .ok outcome =>
      IO.print outcome.stdout
      IO.eprint outcome.stderr
      return outcome.exit.toUInt32
