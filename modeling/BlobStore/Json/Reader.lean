import BlobStore.Json
import BlobStore.Text.Escape

/-!
# Reading JSON

A text is cut into tokens by a machine that takes one character at a time, and the tokens are put
together by a machine with a stack of open arrays and objects. Both stop at the first fault. Of
fields with one name the last one wins.

## Main definitions

* `Json.Token`, `Json.tokens?`: the tokens of a text
* `Json.readNumber`: the number of a token
* `Json.parse?`: the value of a text
-/

namespace BlobStore.Json

/-! ## Numbers -/

/-- The greatest whole number kept exactly. -/
def greatestNatural : Nat := Nat.pow 2 64 - 1

/-- The binary64 number nearest to a power of ten. -/
def powerOfTen (exponent : Nat) : Binary64 :=
  (Binary64.nearest? false (Nat.pow 10 exponent) 1).getD .zero

/-- The greatest power of ten that is a binary64 number. -/
def greatestPower : Nat := 308

/-- `x * 10 ^ exponent`, by division in steps of the greatest power while the exponent is below
its negative. Each step brings the exponent nearer to zero, so `steps` is never used up when it
starts at its magnitude. -/
def scaleIn : Nat → Binary64 → Int → Option Binary64
  | steps, x, exponent =>
    if exponent.natAbs ≤ greatestPower then
      if 0 ≤ exponent then x.times? (powerOfTen exponent.toNat)
      else x.over? (powerOfTen (-exponent).toNat)
    else if x.isZero then some x
    else if 0 ≤ exponent then none
    else
      match steps with
      | 0 => none
      | steps + 1 =>
        (x.over? (powerOfTen greatestPower)).bind fun y =>
          scaleIn steps y (exponent + greatestPower)

/-- `significand * 10 ^ exponent` in two roundings: the significand, and then its product with a
power of ten or its quotient by one. -/
def scale (x : Binary64) (exponent : Int) : Option Binary64 := scaleIn exponent.natAbs x exponent

/-- The number with a sign, a significand and an exponent of ten, unless it is too large. -/
def real? (negative : Bool) (significand : Nat) (exponent : Int) : Option JsonNumber :=
  match Binary64.nearest? false significand 1 with
  | none => none
  | some x => (scale x exponent).map fun y => .real (if negative then y.negate else y)

/-- The digits of a text by their numbers. -/
def digitsOf (text : List Char) : List Nat :=
  text.map fun c => c.toNat - '0'.toNat

/-- The significand of digits before the point, and the number of digits that no longer fit. -/
def absorbWhole : Nat → List Nat → Nat × Nat
  | significand, [] => (significand, 0)
  | significand, d :: rest =>
    if significand * 10 + d ≤ greatestNatural then absorbWhole (significand * 10 + d) rest
    else (significand, (d :: rest).length)

/-- The significand with digits after the point, as far as they fit, and their number. -/
def absorbFraction : Nat → List Nat → Nat × Nat
  | significand, [] => (significand, 0)
  | significand, d :: rest =>
    if significand * 10 + d ≤ greatestNatural then
      let (result, used) := absorbFraction (significand * 10 + d) rest
      (result, used + 1)
    else (significand, 0)

/-- A decimal digit. -/
def isDigit (c : Char) : Bool := '0' ≤ c && c ≤ '9'

/-- The digits after the point, if there is a point, and what follows them. -/
def readFraction : List Char → Option (Option (List Nat) × List Char)
  | '.' :: rest =>
    match rest.takeWhile isDigit with
    | [] => none
    | digits => some (some (digitsOf digits), rest.dropWhile isDigit)
  | rest => some (none, rest)

/-- The digits of an exponent; there must be some, and nothing else. -/
def readExponentDigits (negative : Bool) (text : List Char) : Option Int :=
  if text.isEmpty || !text.all isDigit then none
  else
    let n : Nat := (digitsOf text).foldl (fun n d => n * 10 + d) 0
    some (if negative then -(n : Int) else n)

/-- The exponent, if there is one; nothing may follow it. -/
def readExponent : List Char → Option (Option Int)
  | [] => some none
  | mark :: rest =>
    if mark = 'e' ∨ mark = 'E' then
      match rest with
      | '+' :: digits => (readExponentDigits false digits).map some
      | '-' :: digits => (readExponentDigits true digits).map some
      | digits => (readExponentDigits false digits).map some
    else none

/-- A number without its sign. -/
def readMagnitude (negative : Bool) (text : List Char) : Option JsonNumber :=
  let whole := digitsOf (text.takeWhile isDigit)
  if whole.isEmpty || (whole.length != 1 && whole.head? == some 0) then none
  else
    match readFraction (text.dropWhile isDigit) with
    | none => none
    | some (fraction, rest) =>
      match readExponent rest with
      | none => none
      | some exponent =>
        let (significand, dropped) := absorbWhole 0 whole
        match fraction, exponent with
        | none, none =>
          if dropped = 0 then
            if !negative then some (.natural significand)
            else if 0 < significand ∧ significand ≤ Nat.pow 2 63 then some (.negative significand)
            else real? true significand 0
          else real? negative significand dropped
        | fraction, exponent =>
          let (significand, used) := absorbFraction significand (fraction.getD [])
          real? negative significand ((dropped : Int) - used + exponent.getD 0)

/-- A number with or without a minus sign. -/
def readNumber : List Char → Option JsonNumber
  | '-' :: rest => readMagnitude true rest
  | text => readMagnitude false text

/-! ## Tokens -/

/-- The parts that a text is cut into. -/
inductive Token
  | openArray
  | closeArray
  | openObject
  | closeObject
  | comma
  | colon
  /-- A string. -/
  | text (s : String)
  /-- A value of one word: a number, a truth value or the null value. -/
  | word (value : Json)

/-- What the tokenizer is in the middle of. Characters read so far are kept in reverse. -/
inductive Mode
  | between
  | word (read : List Char)
  | string (read : List Char)
  | escape (read : List Char)
  /-- Inside `\u`: the digits so far make `value`, and `missing` more must follow. `high` is the
  first half of a pair, if one came before. -/
  | code (read : List Char) (high : Option Nat) (value missing : Nat)
  /-- After the first half of a pair: a backslash must follow, and then `u`. -/
  | afterHigh (read : List Char) (high : Nat)
  | escapeAfterHigh (read : List Char) (high : Nat)

/-- A word as a token, with its characters in reverse. -/
def wordToken (read : List Char) : Option Token :=
  let word := read.reverse
  if word = "null".toList then some (.word .null)
  else if word = "true".toList then some (.word (.boolean true))
  else if word = "false".toList then some (.word (.boolean false))
  else (readNumber word).map fun n => .word (.number n)

/-- The character of a one-letter escape. -/
def shortEscape? (c : Char) : Option Char :=
  match c with
  | '"' => some '"'
  | '\\' => some '\\'
  | '/' => some '/'
  | 'b' => some '\x08'
  | 'f' => some '\x0c'
  | 'n' => some '\n'
  | 'r' => some '\r'
  | 't' => some '\t'
  | _ => none

/-- The mode after the four digits of a code: halves must come in pairs, a high one first. -/
def afterCode (read : List Char) (high : Option Nat) (code : Nat) : Option Mode :=
  match high with
  | none =>
    if 0xD800 ≤ code ∧ code ≤ 0xDBFF then some (.afterHigh read code)
    else if 0xDC00 ≤ code ∧ code ≤ 0xDFFF then none
    else some (.string (Char.ofNat code :: read))
  | some first =>
    if 0xDC00 ≤ code ∧ code ≤ 0xDFFF then
      some (.string
        (Char.ofNat (0x10000 + (first - 0xD800) * 0x400 + (code - 0xDC00)) :: read))
    else none

/-- A character between tokens. -/
def between (c : Char) (found : List Token) : Option (Mode × List Token) :=
  match c with
  | ' ' | '\t' | '\n' | '\r' => some (.between, found)
  | '[' => some (.between, .openArray :: found)
  | ']' => some (.between, .closeArray :: found)
  | '\x7b' => some (.between, .openObject :: found)
  | '\x7d' => some (.between, .closeObject :: found)
  | ',' => some (.between, .comma :: found)
  | ':' => some (.between, .colon :: found)
  | '"' => some (.string [], found)
  | c => some (.word [c], found)

/-- Whether a character ends a word. -/
def endsWord (c : Char) : Bool := " \t\n\r[]\x7b\x7d,:\"".toList.contains c

/-- One character of the text; the tokens found so far are kept in reverse. -/
def tokenize (state : Mode × List Token) (c : Char) : Option (Mode × List Token) :=
  match state with
  | (.between, found) => between c found
  | (.word read, found) =>
    if endsWord c then
      match wordToken read with
      | none => none
      | some token => between c (token :: found)
    else some (.word (c :: read), found)
  | (.string read, found) =>
    if c = '"' then some (.between, .text (String.ofList read.reverse) :: found)
    else if c = '\\' then some (.escape read, found)
    else if c.toNat < 0x20 then none
    else some (.string (c :: read), found)
  | (.escape read, found) =>
    if c = 'u' then some (.code read none 0 4, found)
    else (shortEscape? c).map fun escaped => (.string (escaped :: read), found)
  | (.code read high value missing, found) =>
    match Hex.digit? c with
    | none => none
    | some d =>
      if missing ≤ 1 then (afterCode read high (value * 16 + d)).map fun mode => (mode, found)
      else some (.code read high (value * 16 + d) (missing - 1), found)
  | (.afterHigh read high, found) =>
    if c = '\\' then some (.escapeAfterHigh read high, found) else none
  | (.escapeAfterHigh read high, found) =>
    if c = 'u' then some (.code read (some high) 0 4, found) else none

/-- The tokens of a text. -/
def tokens? (text : List Char) : Option (List Token) :=
  match text.foldlM tokenize (.between, []) with
  | some (.between, found) => some found.reverse
  | some (.word read, found) => (wordToken read).map fun token => (token :: found).reverse
  | _ => none

/-! ## Values -/

/-- An array or object that is still open. -/
inductive Frame
  /-- The items so far, in reverse. -/
  | array (items : List Json)
  /-- The fields so far, and the name whose value comes next. -/
  | object (fields : List (String × Json)) (name : String)

/-- What may come next. -/
inductive Expected
  | value
  | valueOrClose
  | commaOrClose
  | name
  | nameOrClose
  | colon
  | nothing

/-- The assembling machine: the open frames, innermost first, and the finished value. -/
structure Assembly where
  frames : List Frame
  expected : Expected
  result : Json

/-- The most arrays and objects that may be open at once. -/
def greatestDepth : Nat := 127

/-- A complete value put where it belongs. -/
def Assembly.complete (frames : List Frame) (value : Json) : Assembly :=
  match frames with
  | [] => ⟨[], .nothing, value⟩
  | .array items :: rest => ⟨.array (value :: items) :: rest, .commaOrClose, .null⟩
  | .object fields name :: rest =>
    ⟨.object (setField name value fields) "" :: rest, .commaOrClose, .null⟩

/-- An array or an object entered, unless that is too deep. -/
def Assembly.opened (frames : List Frame) (frame : Frame) (expected : Expected) :
    Option Assembly :=
  if frames.length < greatestDepth then some ⟨frame :: frames, expected, .null⟩ else none

/-- A token at the start of a value. -/
def Assembly.start (frames : List Frame) : Token → Option Assembly
  | .openArray => opened frames (.array []) .valueOrClose
  | .openObject => opened frames (.object [] "") .nameOrClose
  | .text s => some (.complete frames (.string s))
  | .word value => some (.complete frames value)
  | _ => none

/-- One token more, if it may come here. -/
def Assembly.step (state : Assembly) (token : Token) : Option Assembly :=
  match state.expected, state.frames, token with
  | .value, frames, token => start frames token
  | .valueOrClose, .array items :: rest, .closeArray =>
    some (.complete rest (.array items.reverse))
  | .valueOrClose, frames, token => start frames token
  | .commaOrClose, .array items :: rest, .closeArray =>
    some (.complete rest (.array items.reverse))
  | .commaOrClose, .object fields _ :: rest, .closeObject =>
    some (.complete rest (.object fields))
  | .commaOrClose, .array items :: rest, .comma => some ⟨.array items :: rest, .value, .null⟩
  | .commaOrClose, .object fields _ :: rest, .comma =>
    some ⟨.object fields "" :: rest, .name, .null⟩
  | .nameOrClose, .object fields _ :: rest, .closeObject =>
    some (.complete rest (.object fields))
  | .nameOrClose, .object fields _ :: rest, .text name =>
    some ⟨.object fields name :: rest, .colon, .null⟩
  | .name, .object fields _ :: rest, .text name =>
    some ⟨.object fields name :: rest, .colon, .null⟩
  | .colon, frames, .colon => some ⟨frames, .value, .null⟩
  | _, _, _ => none

/-- The value of a text. -/
def parse? (text : String) : Option Json :=
  match tokens? text.toList with
  | none => none
  | some tokens =>
    match tokens.foldlM Assembly.step ⟨[], .value, .null⟩ with
    | some ⟨[], .nothing, value⟩ => some value
    | _ => none

end BlobStore.Json
