import BlobStore.OrderedMap

/-!
# Pages of a database

How the file of a database is divided. Two b-trees share the pages of the file: the table has the
rows at its leaves, ordered by their numbers, and the index has an entry for every key, ordered by
the keys. What does not fit on a page continues on pages of its own. Pages that were given up are
used again before the file grows, and the file never shrinks.

Only sizes and places are kept here; what a row holds is looked up by its number.

## Main definitions

* `Cell`, `Page`, `Pages`: the parts of a file
* `Pages.balance`: pages that are too full or too empty are levelled with their neighbours
* `Pages.addRow`, `Pages.resizeRow`, `Pages.dropRow`: changes of the table
* `Pages.addEntry`, `Pages.dropEntry`: changes of the index
-/

namespace BlobStore

/-! ## Sizes -/

/-- The number of bytes of a page. -/
def pageSize : Nat := 4096

/-- Numbers added up. -/
def total (sizes : List Nat) : Nat := sizes.foldr (· + ·) 0

/-- The number of bytes of a number written seven bits to the byte. -/
def varintSize (n : Nat) : Nat := n.log2 / 7 + 1

/-- The bytes of a record that a page holds, if it holds at most `most` of them: the others are
whole pages with four bytes each for the next. -/
def localSize (most payload : Nat) : Nat :=
  let least := 489
  if payload ≤ most then payload
  else
    let rest := least + (payload - least) % (pageSize - 4)
    if rest ≤ most then rest else least

/-- The most bytes of a row that its page holds. -/
def rowLimit : Nat := 4061

/-- The most bytes of an entry of the index that its page holds. -/
def entryLimit : Nat := 1002

/-- The number of further pages that a record takes. -/
def spill (most payload : Nat) : Nat :=
  (payload - localSize most payload + (pageSize - 5)) / (pageSize - 4)

/-- The code for a number in a record, and the bytes that it takes there. -/
def integerCode (n : Nat) : Nat × Nat :=
  if n = 0 then (8, 0)
  else if n = 1 then (9, 0)
  else if n < 0x80 then (1, 1)
  else if n < 0x8000 then (2, 2)
  else if n < 0x800000 then (3, 3)
  else if n < 0x80000000 then (4, 4)
  else if n < 0x800000000000 then (5, 6)
  else (6, 8)

/-- The code of a text of so many bytes. -/
def textCode (length : Nat) : Nat := 13 + 2 * length

/-- The code of a value of so many bytes. -/
def bytesCode (length : Nat) : Nat := 12 + 2 * length

/-- The codes at the head of a record take this many bytes, with their own number. -/
def headSize (codes : List Nat) : Nat :=
  let size := total (codes.map varintSize)
  if size ≤ 126 then size + 1 else size + 2

/-- The bytes of the record of a row, whose times are `created` and `modified`. -/
def rowPayload (text : String) (length created modified : Nat) : Nat :=
  let (createdCode, createdSize) := integerCode created
  let (modifiedCode, modifiedSize) := integerCode modified
  headSize [textCode text.utf8ByteSize, bytesCode length, createdCode, modifiedCode] +
    text.utf8ByteSize + length + createdSize + modifiedSize

/-- The bytes of the record of an entry of the index. -/
def entryPayload (text : String) (id : Nat) : Nat :=
  let (code, size) := integerCode id
  headSize [textCode text.utf8ByteSize, code] + text.utf8ByteSize + size

/-! ## Pages -/

/-- What a page of a b-tree lists. A page that is no leaf has a child on the left of every cell. -/
inductive Cell
  /-- A row, by its number and the bytes of its record; it continues on the pages `overflow`. -/
  | row (id payload : Nat) (overflow : List Nat)
  /-- A bound of the numbers in the child. -/
  | bound (child id : Nat)
  /-- An entry of the index for a row; leaves have no children. -/
  | entry (child : Nat) (text : String) (id : Nat) (overflow : List Nat)
deriving DecidableEq, Repr, Inhabited

namespace Cell

/-- The page on the left of a cell, if there is one. -/
def child : Cell → Nat
  | .row _ _ _ => 0
  | .bound child _ => child
  | .entry child _ _ _ => child

/-- The cell with another page on its left. -/
def withChild (child : Nat) : Cell → Cell
  | .row id payload overflow => .row id payload overflow
  | .bound _ id => .bound child id
  | .entry _ text id overflow => .entry child text id overflow

/-- The number of the row that a cell is about. -/
def id : Cell → Nat
  | .row id _ _ => id
  | .bound _ id => id
  | .entry _ _ id _ => id

/-- The pages on which a cell continues. -/
def overflow : Cell → List Nat
  | .row _ _ overflow => overflow
  | .bound _ _ => []
  | .entry _ _ _ overflow => overflow

/-- The bytes of a record on its page, with its length before it and a page number behind it if it
continues there. -/
def recordSize (most payload : Nat) : Nat :=
  varintSize payload + localSize most payload + (if payload ≤ most then 0 else 4)

/-- The bytes that a cell takes on a page, without its place in the list of cells. -/
def size (leaf : Bool) : Cell → Nat
  | .row id payload _ => max 4 (recordSize rowLimit payload + varintSize id)
  | .bound _ id => 4 + varintSize id
  | .entry _ text id _ =>
    let size := max 4 (recordSize entryLimit (entryPayload text id))
    if leaf then size else 4 + size

/-- With its place in the list of cells. -/
def cost (leaf : Bool) (cell : Cell) : Nat := 2 + cell.size leaf

end Cell

/-- A page of a b-tree. -/
structure Page where
  leaf : Bool := true
  cells : List Cell := []
  /-- The child on the right of all cells, if the page is no leaf. -/
  right : Nat := 0
deriving DecidableEq, Repr, Inhabited

namespace Page

/-- The bytes that the cells of a page take. -/
def used (page : Page) : Nat := total (page.cells.map (Cell.cost page.leaf))

/-- The bytes for cells on a page. -/
def room (leaf : Bool) : Nat := if leaf then pageSize - 8 else pageSize - 12

/-- The cells take more than there is. -/
def isOverfull (page : Page) : Bool := page.used > room page.leaf

/-- More than two thirds of the page are free. -/
def isUnderfull (page : Page) : Bool := (room page.leaf - page.used) * 3 > pageSize * 2

/-- The child at a position: on the left of the cell there, or on the right of all. -/
def childAt (page : Page) (position : Nat) : Nat :=
  match page.cells[position]? with
  | some cell => cell.child
  | none => page.right

/-- All pages below a page, from the left. -/
def children (page : Page) : List Nat :=
  if page.leaf then [] else page.cells.map Cell.child ++ [page.right]

end Page

/-- The pages of a file. The first page describes the file, and is not listed. -/
structure Pages where
  nodes : OrderedMap Nat Page
  /-- The pages that can be used again. -/
  free : List Nat := []
  /-- The number of pages, with the first. -/
  count : Nat
deriving DecidableEq, Repr, Inhabited

namespace Pages

/-- The root of the table. -/
def table : Nat := 2

/-- The root of the index. -/
def index : Nat := 3

/-- The pages of a new database. -/
def empty : Pages := { nodes := (OrderedMap.empty.put table {}).put index {}, count := 3 }

/-- The bytes of the file. -/
def size (p : Pages) : Nat := p.count * pageSize

/-- The page of a number. -/
def node (p : Pages) (n : Nat) : Page := (p.nodes.get? n).getD {}

/-- A page written under a number. -/
def put (p : Pages) (n : Nat) (page : Page) : Pages := { p with nodes := p.nodes.put n page }

/-- A page to be used: one that was given up, or a new one. -/
def take (p : Pages) : Nat × Pages :=
  match p.free with
  | n :: rest => (n, { p with free := rest })
  | [] => (p.count + 1, { p with count := p.count + 1 })

/-- So many pages to be used. -/
def takeMany (p : Pages) : Nat → List Nat × Pages
  | 0 => ([], p)
  | k + 1 =>
    let (n, p) := p.take
    let (rest, p) := p.takeMany k
    (n :: rest, p)

/-- Pages given up. -/
def release (p : Pages) (numbers : List Nat) : Pages :=
  { p with nodes := numbers.foldl OrderedMap.erase p.nodes, free := numbers ++ p.free }

/-! ## Levelling -/

/-- How the cells of neighbours are shared out: for every page the bytes that it uses and the number
of cells before its end. -/
structure Sharing where
  sizes : List Int
  ends : List Nat
deriving DecidableEq, Repr

namespace Sharing

/-- The number of pages among which cells are shared out. -/
def pages (s : Sharing) : Nat := s.ends.length

/-- The bytes that page `i` uses. -/
def size (s : Sharing) (i : Nat) : Int := s.sizes.getD i 0

/-- The number of cells before the end of page `i`. -/
def stop (s : Sharing) (i : Nat) : Nat := s.ends.getD i 0

/-- Page `i` with another size and another end. -/
def set (s : Sharing) (i : Nat) (size : Int) (stop : Nat) : Sharing :=
  ⟨s.sizes.set i size, s.ends.set i stop⟩

/-- The bytes of a page changed. -/
def grow (s : Sharing) (i : Nat) (more : Int) : Sharing := s.set i (s.size i + more) (s.stop i)

/-- The cells that are shared out, by their costs. Where `plain`, every cell is on some page; else
the cell at the end of a page goes between it and the next. -/
structure Stock where
  costs : List Nat
  plain : Bool
  room : Nat

/-- The bytes that cell `i` takes. -/
def Stock.cost (stock : Stock) (i : Nat) : Int := stock.costs.getD i 0

/-- The number of cells. -/
def Stock.total (stock : Stock) : Nat := stock.costs.length

/-- The last cell of page `i` moved to the next page, as long as the page is too full. -/
def shed (stock : Stock) (i : Nat) : Nat → Sharing → Sharing
  | 0, s => s
  | n + 1, s =>
    if s.size i ≤ stock.room then s
    else
      let s := if i + 1 < s.pages then s else ⟨s.sizes ++ [0], s.ends ++ [stock.total]⟩
      let stop := s.stop i
      let lost := stock.cost (stop - 1)
      let gained := if stock.plain then lost else stock.cost stop
      shed stock i n ((s.set i (s.size i - lost) (stop - 1)).grow (i + 1) gained)

/-- The first cell of the next page moved to page `i`, as long as it has room. -/
def fill (stock : Stock) (i : Nat) : Nat → Sharing → Sharing
  | 0, s => s
  | n + 1, s =>
    let stop := s.stop i
    let gained := stock.cost stop
    if stop < stock.total ∧ s.size i + gained ≤ stock.room then
      let lost := if stock.plain then gained else stock.cost (stop + 1)
      fill stock i n ((s.set i (s.size i + gained) (stop + 1)).grow (i + 1) (-lost))
    else s

/-- Pages filled from the left, beginning with page `i`; the pages after the one that takes the last
cell are not needed. -/
def pack (stock : Stock) : Nat → Nat → Sharing → Sharing
  | 0, _, s => s
  | n + 1, i, s =>
    if i < s.pages then
      let s := fill stock i stock.total (shed stock i stock.total s)
      if s.stop i ≥ stock.total then ⟨s.sizes.take (i + 1), s.ends.take (i + 1)⟩
      else pack stock n (i + 1) s
    else s

/-- The last cells of the page before page `i` moved to page `i`, until the two use about as much;
`stop` is the end of the page before. -/
def shift (stock : Stock) (last : Bool) : Nat → Int → Int → Int × Int × Nat
  | 0, left, right => (left, right, 0)
  | r + 1, left, right =>
    let lost := stock.cost r
    let gained := if stock.plain then stock.cost r else stock.cost (r + 1)
    if right ≠ 0 ∧ right + gained > left - (if last then lost - 2 else lost) then
      (left, right, r + 1)
    else shift stock last r (left - lost) (right + gained)

/-- Neighbours made even, from the right to the left. -/
def even (stock : Stock) : Nat → Sharing → Sharing
  | 0, s => s
  | i + 1, s =>
    let last := i + 2 == s.pages
    let (left, right, stop) := shift stock last (s.stop i) (s.size i) (s.size (i + 1))
    even stock i ((s.set i left stop).set (i + 1) right (s.stop (i + 1)))

/-- The cells shared out anew. -/
def level (stock : Stock) (s : Sharing) : Sharing :=
  let s := pack stock (stock.total + s.pages + 1) 0 s
  even stock (s.pages - 1) s

end Sharing

/-- The cells of neighbours in one row, where what is between two of them is put between their
cells; and the number of cells before the end of each. -/
def gather (plain leaf : Bool) : List Page → List Cell → List Cell × List Nat
  | [], _ => ([], [])
  | page :: pages, dividers =>
    match dividers with
    | [] => (page.cells, [page.cells.length])
    | divider :: dividers =>
      let (cells, ends) := gather plain leaf pages dividers
      let between := if plain then [] else [divider.withChild (if leaf then 0 else page.right)]
      let before := page.cells ++ between
      (before ++ cells, page.cells.length :: ends.map (· + before.length))

/-- Pages with the cells between given ends, and what goes between them. -/
def divide (plain leaf : Bool) (right : Nat) (cells : List Cell) :
    Nat → List Nat → List Page × List Cell
  | _, [] => ([], [])
  | start, [stop] => ([{ leaf, cells := (cells.take stop).drop start, right }], [])
  | start, stop :: ends =>
    let mine := (cells.take stop).drop start
    let next := if plain then stop else stop + 1
    let (pages, dividers) := divide plain leaf right cells next ends
    let divider := if plain then Cell.bound 0 ((mine.getLast?.getD default).id)
      else cells.getD stop default
    ({ leaf, cells := mine, right := if leaf then 0 else divider.child } :: pages,
      divider :: dividers)

/-- The child of page `parent` at position `j` levelled with its neighbours, three pages at most. A
root that is left without cells takes the place of its only child. -/
def level (p : Pages) (parent j : Nat) (isRoot : Bool) : Pages :=
  let above := p.node parent
  let dividers := above.cells.length
  let first := if dividers < 2 ∨ j = 0 then 0 else if j = dividers then dividers - 2 else j - 1
  let between := min dividers 2
  let numbers := (above.children.drop first).take (between + 1)
  let old := numbers.map p.node
  let leaf := (old.head?.getD {}).leaf
  let plain := leaf && old.any fun page => page.cells.any fun
    | .row _ _ _ => true
    | _ => false
  let (cells, ends) := gather plain leaf old ((above.cells.drop first).take between)
  let stock : Sharing.Stock :=
    ⟨cells.map (Cell.cost leaf), plain, if leaf then pageSize - 8 else pageSize - 12⟩
  let sharing := Sharing.level stock ⟨old.map fun page => (page.used : Int), ends⟩
  let (pages, dividers) :=
    divide plain leaf ((old.getLast?.getD {}).right) cells 0 sharing.ends
  let (more, p) := p.takeMany (pages.length - numbers.length)
  let used := (numbers.take pages.length ++ more).mergeSort
  let p := p.release (numbers.drop pages.length)
  let p := (used.zip pages).foldl (fun p (n, page) => p.put n page) p
  let inserted := (dividers.zip used).map fun (cell, n) => cell.withChild n
  let last := used.getLast?.getD 0
  let after := match above.cells.drop (first + between) with
    | [] => []
    | cell :: rest => cell.withChild last :: rest
  let right := if above.cells.length = first + between then last else above.right
  let page : Page := { above with cells := above.cells.take first ++ inserted ++ after, right }
  match isRoot && page.cells.isEmpty, pages with
  | true, only :: _ => (p.put parent only).release [last]
  | _, _ => p.put parent page

/-- The last cell of a leaf of the table moved to a new leaf on its right. -/
def append (p : Pages) (parent n : Nat) : Pages :=
  let page := p.node n
  let above := p.node parent
  let (new, p) := p.take
  let kept := page.cells.dropLast
  let p := (p.put n { page with cells := kept }).put new
    { cells := page.cells.drop kept.length }
  p.put parent
    { above with
      cells := above.cells ++ [.bound n ((kept.getLast?.getD default).id)]
      right := new }

/-! ## Ways from a page to the root -/

/-- Pages with positions on them, from the lowest to the root. -/
abbrev Route := List (Nat × Nat)

/-- A page levelled below its parent. One that overflowed at its right end, and is the last child,
gets a new neighbour instead. -/
def settle (p : Pages) (atEnd : Bool) (n parent j : Nat) (isRoot : Bool) : Pages :=
  if atEnd && j == (p.node parent).cells.length then p.append parent n
  else p.level parent j isRoot

/-- Pages on a route levelled, up to the first that need not be, with the rest of the route from
there. `atEnd` says that the lowest is a leaf of the table that its last cell made too full. A root
that is too full gets a new page between it and its children. -/
def balance (p : Pages) (atEnd : Bool) : Route → Pages × Route
  | [] => (p, [])
  | [(root, i)] =>
    let page := p.node root
    if page.isOverfull then
      let (n, p) := p.take
      let p := (p.put n page).put root { leaf := false, cells := [], right := n }
      (p.settle atEnd n root 0 true, [(root, i)])
    else (p, [(root, i)])
  | (n, i) :: (parent, j) :: above =>
    let page := p.node n
    if page.isOverfull || page.isUnderfull then
      balance (p.settle (atEnd && page.isOverfull) n parent j above.isEmpty) false
        ((parent, j) :: above)
    else (p, (n, i) :: (parent, j) :: above)

/-- The route to the first cell that is not before what is looked for; `found` says that a cell on
the way is it. -/
def seek (p : Pages) (before found : Cell → Bool) : Nat → Nat → Route → Route
  | 0, _, route => route
  | fuel + 1, n, route =>
    let page := p.node n
    let i := (page.cells.takeWhile before).length
    let here := (n, i) :: route
    if page.leaf || (page.cells[i]?).any found then here
    else seek p before found fuel (page.childAt i) here

/-- The route to the last cell below a page. -/
def seekLast (p : Pages) : Nat → Nat → Route → Route
  | 0, _, route => route
  | fuel + 1, n, route =>
    let page := p.node n
    if page.leaf then (n, page.cells.length - 1) :: route
    else seekLast p fuel page.right ((n, page.cells.length) :: route)

/-- The route to the row of a number, or to where it would be. -/
def seekRow (p : Pages) (id : Nat) : Route :=
  p.seek (fun cell => cell.id < id) (fun _ => false) p.count table []

/-- The route to the entry of a text, or to where it would be. -/
def seekEntry (p : Pages) (text : String) : Route :=
  let textOf : Cell → String
    | .entry _ text _ _ => text
    | _ => ""
  p.seek (fun cell => textOf cell < text) (fun cell => textOf cell == text) p.count index []

/-! ## Changes -/

/-- A cell put in at the end of a route. -/
def insertAt (p : Pages) (route : Route) (cell : Cell) (isRow : Bool) : Pages :=
  match route with
  | [] => p
  | (n, i) :: _ =>
    let page := p.node n
    let p := p.put n { page with cells := page.cells.take i ++ cell :: page.cells.drop i }
    if (p.node n).isOverfull then (p.balance (isRow && i == page.cells.length) route).1 else p

/-- The cell at the end of a route, if there is one. -/
def cellAt (p : Pages) : Route → Option Cell
  | [] => none
  | (n, i) :: _ => (p.node n).cells[i]?

/-- A new row. -/
def addRow (p : Pages) (id payload : Nat) : Pages :=
  let (overflow, p) := p.takeMany (spill rowLimit payload)
  p.insertAt (p.seekRow id) (.row id payload overflow) true

/-- A row with a record of another length; one of the same length is written over. -/
def resizeRow (p : Pages) (id payload : Nat) : Pages :=
  let route := p.seekRow id
  match p.cellAt route, route with
  | some (.row _ before overflow), (n, i) :: _ =>
    if before = payload then p
    else
      let (more, p) := p.takeMany (spill rowLimit payload)
      let p := p.release overflow
      let page := p.node n
      let p := p.put n { page with cells := page.cells.eraseIdx i }
      p.insertAt route (.row id payload more) true
  | _, _ => p

/-- A row removed. -/
def dropRow (p : Pages) (id : Nat) : Pages :=
  let route := p.seekRow id
  match p.cellAt route, route with
  | some cell, (n, i) :: _ =>
    let p := p.release cell.overflow
    let page := p.node n
    ((p.put n { page with cells := page.cells.eraseIdx i }).balance false route).1
  | _, _ => p

/-- A new entry of the index. -/
def addEntry (p : Pages) (text : String) (id : Nat) : Pages :=
  let (overflow, p) := p.takeMany (spill entryLimit (entryPayload text id))
  p.insertAt (p.seekEntry text) (.entry 0 text id overflow) false

/-- An entry of the index removed. One above the leaves is replaced by the last before it. -/
def dropEntry (p : Pages) (text : String) : Pages :=
  let route := p.seekEntry text
  match p.cellAt route, route with
  | some cell, (n, i) :: above =>
    let p := p.release cell.overflow
    let page := p.node n
    if page.leaf then
      ((p.put n { page with cells := page.cells.eraseIdx i }).balance false route).1
    else
      match p.seekLast p.count cell.child route with
      | [] => p
      | (leaf, last) :: between =>
        let lowest := p.node leaf
        let replacement := (lowest.cells[last]?.getD default).withChild cell.child
        let p := p.put n { page with cells := page.cells.set i replacement }
        let p := p.put leaf { lowest with cells := lowest.cells.dropLast }
        let (p, rest) := p.balance false ((leaf, last) :: between)
        if rest.length > route.length then (p.balance false ((n, i) :: above)).1 else p
  | _, _ => p

end Pages

end BlobStore
