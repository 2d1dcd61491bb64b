import BlobStore.Number.Shortest
import BlobStore.Text.Escape

/-!
# JSON values

The values of the data format, and their text.

## Main definitions

* `Json`: values; an object keeps its fields in the order in which they were set
* `Json.setField`, `Json.field?`: the fields of an object
* `Json.compact`, `Json.prettyFields`: the text of a value, on one line or over several
-/

namespace BlobStore

/-- Whole numbers are kept exactly as far as 64 bits go; all others are binary64 numbers. -/
inductive JsonNumber
  | natural (n : Nat)
  /-- The number below zero with this magnitude. -/
  | negative (magnitude : Nat)
  | real (x : Binary64)
deriving DecidableEq, Repr

/-- A value; the fields of an object have their order. -/
inductive Json
  | null
  | boolean (b : Bool)
  | number (n : JsonNumber)
  | string (s : String)
  | array (items : List Json)
  | object (fields : List (String × Json))
deriving Repr, Inhabited

namespace Json

/-! ## Fields -/

/-- The value of a field. -/
def field? (fields : List (String × Json)) (name : String) : Option Json :=
  fields.lookup name

/-- A field set to a value: in its place if it is there, at the end otherwise. -/
def setField (name : String) (value : Json) : List (String × Json) → List (String × Json)
  | [] => [(name, value)]
  | (other, old) :: rest =>
    if other = name then (name, value) :: rest else (other, old) :: setField name value rest

/-! ## Text -/

/-- The last four hexadecimal digits of a number. -/
def fourDigits (n : Nat) : String :=
  String.ofList ([n / 4096, n / 256, n / 16, n].map fun d => Nat.digitChar (d % 16))

/-- A character inside a string: the quote, the backslash and the controls are escaped. -/
def escape (c : Char) : String :=
  if c = '"' then "\\\""
  else if c = '\\' then "\\\\"
  else if c = '\x08' then "\\b"
  else if c = '\t' then "\\t"
  else if c = '\n' then "\\n"
  else if c = '\x0c' then "\\f"
  else if c = '\r' then "\\r"
  else if c.toNat < 0x20 then "\\u" ++ fourDigits c.toNat
  else c.toString

/-- A string between its quotes. -/
def stringText (text : String) : String :=
  "\"" ++ String.join (text.toList.map escape) ++ "\""

/-- A number in decimal digits. -/
def numberText : JsonNumber → String
  | .natural n => toString n
  | .negative magnitude => "-" ++ toString magnitude
  | .real x => x.decimal

mutual

/-- The text on one line. -/
def compact : Json → String
  | .null => "null"
  | .boolean true => "true"
  | .boolean false => "false"
  | .number n => numberText n
  | .string s => stringText s
  | .array items => "[" ++ ",".intercalate (compactItems items) ++ "]"
  | .object fields => "\x7b" ++ ",".intercalate (compactFields fields) ++ "\x7d"

/-- The items of an array, each on one line. -/
def compactItems : List Json → List String
  | [] => []
  | item :: rest => compact item :: compactItems rest

/-- The fields of an object, each on one line. -/
def compactFields : List (String × Json) → List String
  | [] => []
  | (name, value) :: rest => (stringText name ++ ":" ++ compact value) :: compactFields rest

end

/-- The object over several lines, one field a line, indented by two blanks; the values stand on
one line. -/
def prettyFields (fields : List (String × Json)) : String :=
  match fields with
  | [] => "\x7b\x7d"
  | fields =>
    "\x7b\n" ++ ",\n".intercalate
      (fields.map fun (name, value) => "  " ++ stringText name ++ ": " ++ value.compact) ++ "\n\x7d"

end Json

end BlobStore
