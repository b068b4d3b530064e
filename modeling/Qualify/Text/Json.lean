import Qualify.Text.Quoted

/-!
# JSON texts

A `Json` value keeps the order in which the fields of an object are listed.
`Json.render` writes it on one line, with a space after each comma and colon, in
plain ASCII: a character outside the printable range of ASCII is written by its
UTF-16 code units.
-/

namespace Qualify.Text

/-- A JSON value whose numbers are integers. -/
inductive Json where
  | null
  | number (value : Int)
  | text (value : String)
  | array (items : List Json)
  | object (fields : List (String × Json))
deriving Repr

namespace Json

/-- One UTF-16 code unit as an escape. -/
def escapeUnit (n : Nat) : List Char := '\x5c' :: 'u' :: hexadecimal 4 n

/-- A code point as one unit, or as a pair of surrogates above the basic plane. -/
def escapeUnits (n : Nat) : List Char :=
  if n < 0x10000 then escapeUnit n
  else
    escapeUnit (0xd800 + (n - 0x10000) / 0x400) ++ escapeUnit (0xdc00 + (n - 0x10000) % 0x400)

/-- One character inside a JSON string. -/
def escape (c : Char) : List Char :=
  if c = '\x22' || c = '\x5c' then ['\x5c', c]
  else if c = '\n' then ['\x5c', 'n']
  else if c = '\r' then ['\x5c', 'r']
  else if c = '\t' then ['\x5c', 't']
  else if c = '\x08' then ['\x5c', 'b']
  else if c = '\x0c' then ['\x5c', 'f']
  else if 0x20 ≤ c.toNat && c.toNat ≤ 0x7e then [c]
  else escapeUnits c.toNat

/-- A JSON string. -/
def renderText (text : String) : String :=
  String.ofList ('\x22' :: (text.toList.flatMap escape ++ ['\x22']))

mutual

/-- The text of a value. -/
def render : Json → String
  | null => "null"
  | number value => toString value
  | text value => renderText value
  | array items => "[" ++ renderItems items ++ "]"
  | object fields => "\x7b" ++ renderFields fields ++ "\x7d"

/-- The items of an array, separated by commas. -/
def renderItems : List Json → String
  | [] => ""
  | item :: rest => render item ++ (if rest.isEmpty then "" else ", ") ++ renderItems rest

/-- The fields of an object, separated by commas. -/
def renderFields : List (String × Json) → String
  | [] => ""
  | field :: rest => renderField field ++ (if rest.isEmpty then "" else ", ") ++ renderFields rest

/-- A field of an object. -/
def renderField : String × Json → String
  | (name, value) => renderText name ++ ": " ++ render value

end

end Json

end Qualify.Text
