import BlobStore.Key
import BlobStore.Text.Utf8

/-!
# Paths on a disk

A name on a disk is any sequence of bytes, which need not be a text. A path names an entry of a
disk, from the top or from the current directory. It is kept as the pieces between its delimiters.
Empty pieces and single dots lead nowhere, so they do not count as parts of the path; they count for
its length, and at its end they say what it must lead to.

## Main definitions

* `FileName`, `FileName.lossy`: names and how they are read
* `DiskPath`, `DiskPath.ofText`, `DiskPath.text`: paths, and those that texts are
* `DiskPath.parts`, `DiskPath.components`: the pieces that count
* `DiskPath.descend`, `DiskPath.parent`: a path continued and cut back
* `DiskPath.steps`: what a walk along the path passes
-/

namespace BlobStore

/-! ## Names -/

/-- A name on a disk, which is a sequence of bytes: a text, or bytes that are the encoding of none.
-/
inductive FileName
  | text (text : String)
  | raw (bytes : { bytes : Bytes // (Utf8.decode bytes).toOption = none })
deriving DecidableEq, Repr

namespace FileName

/-- The name that is made of some bytes. -/
def ofBytes (bytes : Bytes) : FileName :=
  match h : Utf8.decode bytes with
  | .ok t => .text t
  | .error _ => .raw ⟨bytes, by rw [h]; rfl⟩

/-- The texts in their order, and then the other names in the order of their bytes. -/
def Before : FileName → FileName → Prop
  | .text a, .text b => a < b
  | .text _, .raw _ => True
  | .raw _, .text _ => False
  | .raw a, .raw b => a.val.map UInt8.toNat < b.val.map UInt8.toNat

instance decidableBefore : (a b : FileName) → Decidable (Before a b)
  | .text a, .text b => inferInstanceAs (Decidable (a < b))
  | .text _, .raw _ => inferInstanceAs (Decidable True)
  | .raw _, .text _ => inferInstanceAs (Decidable False)
  | .raw a, .raw b => inferInstanceAs (Decidable (a.val.map UInt8.toNat < b.val.map UInt8.toNat))

instance instLT : LT FileName := ⟨Before⟩

instance decidableLT : DecidableLT FileName := decidableBefore

/-- The number of bytes of a name. -/
def size : FileName → Nat
  | .text t => t.utf8ByteSize
  | .raw bytes => bytes.val.length

/-- Whether a name has a zero among its bytes. -/
def hasNul : FileName → Bool
  | .text t => t.toList.contains '\x00'
  | .raw bytes => bytes.val.contains 0

/-- A name as a text; what is no text in it is replaced. -/
def lossy : FileName → String
  | .text t => t
  | .raw bytes => Utf8.lossy bytes.val

/-- A name that goes on with a text. -/
def append (name : FileName) (more : String) : FileName :=
  match name with
  | .text t => .text (t ++ more)
  | .raw bytes => ofBytes (bytes.val ++ Utf8.encode more)

end FileName

/-- Texts as names. -/
def namesOf (texts : List String) : List FileName := texts.map .text

/-- The number of bytes of names together. -/
def sizeOfNames : List FileName → Nat
  | [] => 0
  | name :: rest => name.size + sizeOfNames rest

/-- The segments of a key as names. -/
def Key.names (key : Key) : List FileName := namesOf key.segments

/-- The key whose segments are names, each read as a text. -/
def Key.ofNames (names : List FileName) : Key := ⟨names.map (·.lossy)⟩

/-! ## Paths -/

/-- A path by its pieces, from its beginning on. -/
structure DiskPath where
  pieces : List FileName
deriving DecidableEq, Repr

/-- What a path is made of: the top, the current directory, ways up, and names. -/
inductive PathComponent
  | top
  | current
  | up
  | name (name : FileName)
deriving DecidableEq, Repr

namespace DiskPath

/-- The path that a text is. -/
def ofText (text : String) : DiskPath :=
  ⟨(Key.pieces text.toList).map fun piece => .text (String.ofList piece)⟩

/-- A path as it is shown. -/
def text (p : DiskPath) : String := "/".intercalate (p.pieces.map (·.lossy))

/-- The number of bytes of a path, one for each delimiter. -/
def size (p : DiskPath) : Nat := sizeOfNames p.pieces + (p.pieces.length - 1)

/-- Whether a path names nothing because it has no bytes. -/
def isEmpty (p : DiskPath) : Bool := p.pieces.all (· = .text "") && p.pieces.length ≤ 1

/-- Whether a path starts at the top. -/
def absolute (p : DiskPath) : Bool := p.pieces.head? == some (.text "") && !p.isEmpty

/-- Whether a path ends with a delimiter; then it names a directory or nothing. -/
def closed (p : DiskPath) : Bool := p.pieces.getLast? == some (.text "") && !p.isEmpty

/-! ## Parts -/

/-- A piece that leads nowhere. -/
def isIdle (piece : FileName) : Bool := piece = .text "" || piece = .text "."

/-- Names of entries, and two dots for the way up. -/
def parts (p : DiskPath) : List FileName := p.pieces.filter (!isIdle ·)

/-- A part as a component. -/
def component (part : FileName) : PathComponent := if part = .text ".." then .up else .name part

/-- The components of a path. A single dot is one at the beginning of a relative path only. -/
def components (p : DiskPath) : List PathComponent :=
  let start : List PathComponent :=
    if p.absolute then [.top] else if p.pieces.head? = some (.text ".") then [.current] else []
  start ++ p.parts.map component

/-- The pieces without those at the end that lead nowhere. -/
def trimmed (pieces : List FileName) : List FileName := (pieces.reverse.dropWhile isIdle).reverse

/-- The path without its last part. -/
def parent (p : DiskPath) : DiskPath :=
  match trimmed (trimmed p.pieces).dropLast with
  | [] => if p.absolute then ⟨[.text "", .text ""]⟩ else ⟨[.text ""]⟩
  | pieces => ⟨pieces⟩

/-- The first paths of: the path, its parent, and so on; as many as `n`. -/
def ascend : Nat → DiskPath → List DiskPath
  | 0, _ => []
  | n + 1, p => p :: ascend n p.parent

/-- The path and all paths above it that have a part, the longest first. -/
def ancestry (p : DiskPath) : List DiskPath := ascend p.parts.length p

/-- The path with one name more at its end. -/
def child (p : DiskPath) (name : FileName) : DiskPath :=
  if p.pieces.getLast? == some (.text "") then ⟨p.pieces.dropLast ++ [name]⟩
  else ⟨p.pieces ++ [name]⟩

/-- The path with more names at its end. -/
def descend (p : DiskPath) (names : List FileName) : DiskPath := names.foldl child p

/-! ## Walks -/

/-- The pieces that a walk passes, one after the other. -/
def passes (p : DiskPath) : List FileName := p.pieces.filter (· ≠ .text "")

/-- The pieces to walk along; a closed path ends with a step that only a directory allows. -/
def steps (p : DiskPath) : List FileName := if p.closed then p.passes ++ [.text "."] else p.passes

end DiskPath

end BlobStore
