/-!
# Pages of a database file

A database file is cut into pages of one size. The rows of a table are records in the cells of a tree
of pages: an inner page leads to others, and a leaf holds the records, of which the end of a long one
stands on pages of its own.
-/

namespace Crosswalk

/-- The bytes of a database file and the layout of its pages. -/
structure PagedFile where
  bytes : ByteArray
  pageSize : Nat
  /-- The number of bytes that are in use at the start of every page. -/
  usable : Nat

namespace PagedFile

/-! ### Numbers -/

/-- The number in some bytes, the most significant first. -/
def number (bytes : ByteArray) (start count : Nat) : Option Nat :=
  (List.range count).foldlM
    (fun n i => (bytes[start + i]?).map fun byte => 256 * n + byte.toNat) 0

/-- The number of variable length at a place, and the place after it: groups of seven bits, of which
all but the last one are marked; after `groups` of them a byte of eight bits. -/
def varint (bytes : ByteArray) (groups n place : Nat) : Option (Nat × Nat) :=
  match groups with
  | 0 => (bytes[place]?).map fun byte => (256 * n + byte.toNat, place + 1)
  | groups + 1 => do
    let byte ← bytes[place]?
    if byte < 128 then return (128 * n + byte.toNat, place + 1)
    else varint bytes groups (128 * n + (byte.toNat - 128)) (place + 1)

def readVarint (bytes : ByteArray) (place : Nat) : Option (Nat × Nat) :=
  varint bytes 8 0 place

def slice (bytes : ByteArray) (start length : Nat) : Option ByteArray :=
  if start + length ≤ bytes.size then some (bytes.extract start (start + length)) else none

/-! ### The file -/

/-- The first bytes of every database file. -/
def mark : String := "SQLite format 3\x00"

/-- The number of bytes that stand before the first page proper. -/
def headingSize : Nat := 100

/-- Takes bytes for a database file, if they start like one and hold texts in UTF-8. -/
def ofBytes? (bytes : ByteArray) : Option PagedFile := do
  let heading ← slice bytes 0 headingSize
  let size ← number bytes 16 2
  let encoding ← number bytes 56 4
  let reserved ← number bytes 20 1
  let pageSize := if size = 1 then 65536 else size
  if (heading.extract 0 16).data = mark.toUTF8.data ∧ encoding ≤ 1 ∧ 480 + reserved ≤ pageSize then
    return ⟨bytes, pageSize, pageSize - reserved⟩
  else none

/-- Whether changes are logged ahead. -/
def logsAhead (f : PagedFile) : Bool :=
  f.bytes[18]? = some 2

def pageCount (f : PagedFile) : Nat :=
  f.bytes.size / f.pageSize

/-! ### Cells -/

/-- Where a page starts; pages are counted from one. -/
def start (f : PagedFile) (page : Nat) : Nat :=
  (page - 1) * f.pageSize

/-- Where the heading of a page starts. -/
def heading (f : PagedFile) (page : Nat) : Nat :=
  f.start page + if page = 1 then headingSize else 0

/-- The places of the cells of a page whose heading has some size. -/
def cells (f : PagedFile) (page headingSize : Nat) : Option (List Nat) := do
  let count ← number f.bytes (f.heading page + 3) 2
  (List.range count).mapM fun i =>
    (number f.bytes (f.heading page + headingSize + 2 * i) 2).map (f.start page + ·)

/-- The bytes of a record from a page on that is left to them; the first number bounds how many such
pages follow each other. -/
def overflow (f : PagedFile) : Nat → Nat → Nat → Option ByteArray
  | 0, _, _ => none
  | pages + 1, page, length =>
    let held := f.usable - 4
    if length ≤ held then slice f.bytes (f.start page + 4) length
    else do
      let next ← number f.bytes (f.start page) 4
      return (← slice f.bytes (f.start page + 4) held) ++ (← f.overflow pages next (length - held))

/-- How many bytes of a record stand in its cell. -/
def lengthInCell (f : PagedFile) (length : Nat) : Nat :=
  let greatest := f.usable - 35
  let least := (f.usable - 12) * 32 / 255 - 23
  let kept := least + (length - least) % (f.usable - 4)
  if length ≤ greatest then length else if kept ≤ greatest then kept else least

/-- The record in a cell. -/
def record (f : PagedFile) (cell : Nat) : Option ByteArray := do
  let (length, place) ← readVarint f.bytes cell
  let (_, place) ← readVarint f.bytes place
  let here := f.lengthInCell length
  let head ← slice f.bytes place here
  if here = length then return head
  let page ← number f.bytes (place + here) 4
  return head ++ (← f.overflow f.pageCount page (length - here))

/-- The records in the tree from a page down, in order; the first number bounds its depth. -/
def records (f : PagedFile) : Nat → Nat → Option (List ByteArray)
  | 0, _ => none
  | depth + 1, page => do
    let sort ← f.bytes[f.heading page]?
    if sort = 13 then (← f.cells page 8).mapM f.record
    else if sort = 5 then
      let children ← (← f.cells page 12).mapM fun cell => number f.bytes cell 4
      let last ← number f.bytes (f.heading page + 8) 4
      return (← (children ++ [last]).mapM (f.records depth)).flatten
    else none

end PagedFile

end Crosswalk
