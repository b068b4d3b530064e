import Qualify.Text.Newline
import Qualify.Text.Quoted
import Qualify.Text.Split

/-!
# Files

The names and contents that the command line reads a body from. A `FileName` is
kept in normal form: empty components and `.` are dropped, `..` is kept for the
file system to resolve. `Files` is a directory tree as a value, and `Files.read`
reads a file of it the way a file system does.
-/

namespace Qualify.Cli

/-- A file name in normal form. -/
structure FileName where
  /-- Empty for a relative name, else one or two slashes. -/
  root : String
  parts : List String
deriving DecidableEq, Repr

namespace FileName

/-- The root that leading slashes stand for: exactly two are kept, any other number
counts as one. -/
def rootOf (slashes : Nat) : String :=
  if slashes = 0 then "" else if slashes = 2 then "//" else "/"

/-- The file name that a text stands for. -/
def ofText (text : String) : FileName where
  root := rootOf (text.toList.takeWhile (· = '/')).length
  parts := (Text.splitText '/' text).filter fun part => part ≠ "" && part ≠ "."

/-- A file name as text; the working directory itself is `.`. -/
def text (name : FileName) : String :=
  if name.root = "" && name.parts.isEmpty then "."
  else name.root ++ "/".intercalate name.parts

/-- A component without its suffix. The suffix starts at the last dot, unless that
is the first or the last character. -/
def dropSuffix (component : List Char) : List Char :=
  let suffix := component.reverse.takeWhile (· ≠ '.')
  let stem := component.take (component.length - suffix.length - 1)
  if suffix.length = component.length || suffix.isEmpty || stem.isEmpty then component else stem

/-- The last component without its suffix. -/
def stem (name : FileName) : String :=
  String.ofList (dropSuffix (name.parts.getLast?.getD "").toList)

end FileName

/-- The ways a file cannot be read. -/
inductive ReadError where
  | missing
  | notDirectory
  | isDirectory
  | nameTooLong
  /-- Any other refusal of the system. -/
  | system (number : Nat) (description : String)
deriving DecidableEq, Repr

namespace ReadError

/-- The number a system gives the error. -/
def number : ReadError → Nat
  | missing => 2
  | notDirectory => 20
  | isDirectory => 21
  | nameTooLong => 36
  | system number _ => number

/-- What a system says about the error. -/
def description : ReadError → String
  | missing => "No such file or directory"
  | notDirectory => "Not a directory"
  | isDirectory => "Is a directory"
  | nameTooLong => "File name too long"
  | system _ description => description

/-- The message of an error about a file. -/
def message (error : ReadError) (name : FileName) : String :=
  "[Errno " ++ toString error.number ++ "] " ++ error.description ++ ": " ++ Text.quoted name.text

end ReadError

/-- What reading gives: a text, bytes that are no text, or an error. -/
inductive Content where
  | text (value : String)
  | undecodable
  | unreadable (error : ReadError)
deriving DecidableEq, Repr

/-- The text of bytes in UTF-8, with its line ends unified. -/
def Content.ofBytes (bytes : ByteArray) : Content :=
  match String.fromUTF8? bytes with
  | some value => .text (Text.unifyNewlines value)
  | none => .undecodable

/-- What stands at a place of a directory tree. -/
inductive Entry where
  | directory
  | file (bytes : ByteArray)

/-- The files and directories below a working directory, each under the names that
lead to it. Of two entries at one place the first counts. -/
structure Files where
  entries : List (List String × Entry) := []

namespace Files

/-- The places that names lead through from a place below the working directory,
the first and the last included; `..` leads back. -/
def trail (place : List String) : List String → List (List String)
  | [] => [place]
  | part :: rest =>
    place :: trail (if part = ".." then place.dropLast else place ++ [part]) rest

/-- A tree with an entry at a name, and directories at all places on the way. -/
def insert (files : Files) (name : String) (entry : Entry) : Files :=
  let places := trail [] (FileName.ofText name).parts
  let parents := places.dropLast.map fun place => (place, Entry.directory)
  ⟨(places.getLastD [], entry) :: (files.entries ++ parents)⟩

/-- What stands at a place. The working directory is a directory, and so is what
surrounds it (`none`). -/
def entry? (files : Files) : Option (List String) → Option Entry
  | none => some .directory
  | some [] => some .directory
  | some place => files.entries.lookup place

/-- The place that a component leads to. Nothing is known by name outside the
working directory. -/
def enter (place : Option (List String)) (part : String) : Option (Option (List String)) :=
  match place with
  | none => if part = ".." then some none else none
  | some names =>
    if part = ".." then some (if names.isEmpty then none else some names.dropLast)
    else some (some (names ++ [part]))

/-- The most bytes that a component may have. -/
def longestComponent : Nat := 255

/-- The most bytes that a whole name may have. -/
def longestName : Nat := 4095

/-- Resolve components one after another; each but the last must be a directory. -/
def resolve (files : Files) (place : Option (List String)) :
    List String → Except ReadError ByteArray
  | [] =>
    match files.entry? place with
    | none => .error .missing
    | some .directory => .error .isDirectory
    | some (.file bytes) => .ok bytes
  | part :: rest =>
    match files.entry? place with
    | none => .error .missing
    | some (.file _) => .error .notDirectory
    | some .directory =>
      if longestComponent < part.utf8ByteSize then .error .nameTooLong
      else
        match enter place part with
        | none => .error .missing
        | some next => files.resolve next rest

/-- Read a file. -/
def read (files : Files) (name : FileName) : Content :=
  if longestName < name.text.utf8ByteSize then .unreadable .nameTooLong
  else
    match files.resolve (if name.root = "" then some [] else none) name.parts with
    | .error error => .unreadable error
    | .ok bytes => .ofBytes bytes

end Files

end Qualify.Cli
