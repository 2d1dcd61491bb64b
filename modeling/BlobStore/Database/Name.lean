import BlobStore.Text.Escape
import BlobStore.Text.Utf8

/-!
# Names of databases

A name that begins with `file:` is a URI: a path with escapes, and options behind it that say how
the database is used. Every other name is the path of a file as it stands. Some names are of
databases that no file holds.

## Main definitions

* `DatabaseName`: a name and what its options say
* `DatabaseName.ofText`: the name that a text is, or what is wrong with its options
-/

namespace BlobStore

/-- How the file of a database is used. -/
inductive DatabaseAccess
  | readOnly
  /-- The file must be there. -/
  | existing
  | creating
  /-- There is no file. -/
  | memory
deriving DecidableEq, Repr

/-- What is wrong with a name. -/
inductive DatabaseNameError
  | authority (text : String)
  | cacheMode (text : String)
  | accessMode (text : String)
  /-- An earlier option allows less. -/
  | forbiddenMode (text : String)
  | keeper (text : String)
deriving DecidableEq, Repr

/-- The error in words. -/
def DatabaseNameError.message : DatabaseNameError → String
  | .authority text => s!"invalid uri authority: {text}"
  | .cacheMode text => s!"no such cache mode: {text}"
  | .accessMode text => s!"no such access mode: {text}"
  | .forbiddenMode text => s!"access mode not allowed: {text}"
  | .keeper text => s!"no such vfs: {text}"

/-- A name, with what its options say. -/
structure DatabaseName where
  /-- The path; empty for a database without a name. -/
  path : String
  isUri : Bool := false
  options : List (String × String) := []
  access : DatabaseAccess := .creating
  /-- Those who open the name share one connection. -/
  shared : Bool := false
  /-- What keeps the bytes of the database. -/
  keeper : String := "unix"
deriving DecidableEq, Repr

namespace DatabaseAccess

/-- The access of that name. -/
def ofText? : String → Option DatabaseAccess
  | "ro" => some .readOnly
  | "rw" => some .existing
  | "rwc" => some .creating
  | "memory" => some .memory
  | _ => none

/-- How much an access allows later options to ask for. -/
def allowance : DatabaseAccess → Nat
  | .readOnly => 1
  | .existing => 2
  | .creating => 3
  | .memory => 4

/-- How much an access asks for. -/
def demand : DatabaseAccess → Nat
  | .readOnly => 1
  | .existing => 2
  | .creating => 3
  | .memory => 0

end DatabaseAccess

namespace DatabaseName

/-! ## Parts of a URI -/

/-- Characters before the first of a kind, and those behind it. -/
def cut (c : Char) (text : List Char) : List Char × List Char :=
  (text.takeWhile (· ≠ c), (text.dropWhile (· ≠ c)).drop 1)

/-- The parts between all characters of a kind. -/
def separate (c : Char) : List Char → List (List Char)
  | [] => [[]]
  | x :: rest =>
    if x = c then [] :: separate c rest
    else
      match separate c rest with
      | [] => [[x]]
      | part :: others => (x :: part) :: others

/-- Two digits behind a percent sign stand for a byte; what follows the byte zero is left out. -/
def unescape : List Char → Bytes
  | '%' :: a :: b :: rest =>
    match Hex.digit? a, Hex.digit? b with
    | some 0, some 0 => []
    | some high, some low => UInt8.ofNat (high * 16 + low) :: unescape rest
    | _, _ => 0x25 :: unescape (a :: b :: rest)
  | c :: rest => Utf8.encode c.toString ++ unescape rest
  | [] => []

/-- The text of unescaped characters; bytes that are no text have none. -/
def plain (text : List Char) : String :=
  match Utf8.decode (unescape text) with
  | .ok text => text
  | .error _ => ""

/-- The options of a query; those without a name do not count. -/
def optionsOf (query : List Char) : List (String × String) :=
  ((separate '&' query).map fun option =>
    (plain (cut '=' option).1, plain (cut '=' option).2)).filter (·.1 ≠ "")

/-- The authority of a URI, and what follows it. -/
def authorityOf : List Char → List Char × List Char
  | '/' :: '/' :: rest => (rest.takeWhile (· ≠ '/'), rest.dropWhile (· ≠ '/'))
  | rest => ([], rest)

/-! ## Options -/

/-- A name after one option more. -/
def withOption (name : DatabaseName) : String × String → Except DatabaseNameError DatabaseName
  | ("vfs", text) => .ok { name with keeper := text }
  | ("cache", text) =>
    match text with
    | "shared" => .ok { name with shared := true }
    | "private" => .ok { name with shared := false }
    | _ => .error (.cacheMode text)
  | ("mode", text) =>
    match DatabaseAccess.ofText? text with
    | none => .error (.accessMode text)
    | some access =>
      if access.demand ≤ name.access.allowance then .ok { name with access }
      else .error (.forbiddenMode text)
  | _ => .ok name

/-- What keeps databases in files of a disk. -/
def diskKeepers : List String := ["unix", "unix-none", "unix-dotfile", "unix-excl"]

/-- What keeps databases in memory, and shares those whose paths begin with a delimiter. -/
def memoryKeeper : String := "memdb"

/-- The name that a URI is; the text is what follows `file:`. -/
def ofUri (text : List Char) : Except DatabaseNameError DatabaseName :=
  let (authority, rest) := authorityOf text
  if authority ≠ [] ∧ authority ≠ "localhost".toList then
    .error (.authority (String.ofList authority))
  else
    let (path, query) := cut '?' (cut '#' rest).1
    let start : DatabaseName := { path := plain path, isUri := true, options := optionsOf query }
    match start.options.foldlM withOption start with
    | .error e => .error e
    | .ok name =>
      if name.keeper ∈ memoryKeeper :: diskKeepers then .ok name
      else .error (.keeper name.keeper)

/-- What a name begins with that is not just a path. -/
def scheme : List Char := "file:".toList

/-- The name that a text is. -/
def ofText (text : String) : Except DatabaseNameError DatabaseName :=
  if scheme.isPrefixOf text.toList then ofUri (text.toList.drop scheme.length)
  else .ok { path := text }

/-- The first option of a name. -/
def option? (name : DatabaseName) (option : String) : Option String := name.options.lookup option

/-- Whether the value of an option says yes: a word for it, or a number. -/
def saysYes (value : String) : Bool :=
  match value.toList.takeWhile Char.isDigit with
  | [] => ["on", "yes", "true"].contains (value.map Char.toLower)
  | digits =>
    let n := digits.foldl (fun n c => n * 10 + (c.toNat - '0'.toNat)) 0
    n < Nat.pow 2 31 && n % 256 != 0

/-- Whether the file is taken to be one that nobody changes. -/
def immutable (name : DatabaseName) : Bool := (name.option? "immutable").any saysYes

/-- Whether the name itself says that no file holds the database. -/
def isPrivate (name : DatabaseName) : Bool :=
  name.path == "" || name.path == ":memory:" || name.access == .memory

/-- Whether no file holds the database. -/
def inMemory (name : DatabaseName) : Bool := name.isPrivate || name.keeper == memoryKeeper

/-- Whether the database cannot be changed. -/
def isFixed (name : DatabaseName) : Bool :=
  name.access == .readOnly || name.immutable && !name.isPrivate

/-- The most bytes of the path of a database that is kept in memory. -/
def memoryPathLimit : Nat := 1016

/-- Whether the path is too long for what keeps the database in memory. -/
def isTooLong (name : DatabaseName) : Bool :=
  !name.isPrivate && name.path.utf8ByteSize > memoryPathLimit

/-- The name under which the database is kept in memory for all who open it. -/
def keptName? (name : DatabaseName) : Option String :=
  let named := name.path.length > 1 && ["/", "\\"].contains (name.path.take 1).toString
  if name.inMemory && !name.isPrivate && named then some s!"kept:{name.path}" else none

end DatabaseName

end BlobStore
