import Crosswalk.Failure
import Crosswalk.FilePath
import Crosswalk.Text.Digit
import Crosswalk.Text.Percent
import Crosswalk.Text.Split

/-!
# Locations

A location says where a store is kept and what may be done with the file. Its text is a path, or
else a URI that starts with `file:`. A URI may name this machine, ends before the first `#`, and
has options after the first `?`, with `&` between them; the percent signs in its path and in the
names and values of its options are decoded.

The option `mode` says what may be done, and it may be given again as long as it asks for no more
than before; `cache` makes no difference; `vfs` names a way to reach files; `immutable` says that
nobody changes the file, and `nolock` that nobody else uses it. Other options mean nothing.
-/

namespace Crosswalk

/-- What may be done with the file of a store. -/
inductive Mode where
  /-- There is no file; the store is never kept. -/
  | memory
  | readOnly
  | readWrite
  /-- The file may be changed, and made when there is none. -/
  | create
deriving DecidableEq

namespace Mode

def ofText? : String → Option Mode
  | "memory" => some memory
  | "ro" => some readOnly
  | "rw" => some readWrite
  | "rwc" => some create
  | _ => none

def rank : Mode → Nat
  | memory => 0
  | readOnly => 1
  | readWrite => 2
  | create => 3

/-- Whether another mode may take the place of this one. -/
def admits (mode other : Mode) : Bool :=
  mode = memory || other.rank ≤ mode.rank

end Mode

inductive Reach where
  /-- Several programs may use a file at a time, and changes may be logged ahead. -/
  | shared
  /-- A file is used without regard to others, and changes are not logged ahead. -/
  | alone
  /-- Files are held in memory only. -/
  | memory
deriving DecidableEq

def Reach.ofText? : String → Option Reach
  | "unix" | "unix-excl" => some shared
  | "unix-none" | "unix-dotfile" => some alone
  | "memdb" => some memory
  | _ => none

structure Location where
  path : String
  mode : Mode := .create
  reach : Reach := .shared
  immutable : Bool := false
deriving DecidableEq

namespace Location

/-! ### What a location says -/

def isTransient (l : Location) : Bool :=
  l.mode = .memory || l.reach = .memory || l.path = "" || l.path = ":memory:"

def isReadOnly (l : Location) : Bool :=
  l.mode = .readOnly || (l.immutable && !l.isTransient)

def canLogAhead (l : Location) : Bool :=
  l.reach = .shared && !l.immutable && !l.isTransient

def file (l : Location) : String :=
  FilePath.plain l.path

/-- The greatest number of bytes in the path of a file that holds a store. -/
def greatestFile : Nat := 488

/-- The number of bytes by which the name of the file of a log is longer than that of the store. -/
def logEnding : Nat := 8

/-- Whether the name of the file leaves room for the name of a log beside it. -/
def hasRoomForLog (l : Location) : Bool :=
  ((FilePath.plainParts l.path).getLast?.getD "").utf8ByteSize + logEnding ≤ FilePath.greatestPart

/-! ### Reading a location -/

/-- What follows the authority of a URI, which must be this machine. -/
def afterAuthority : List Char → Except StorageFault (List Char)
  | '/' :: '/' :: cs =>
    let authority := String.ofList (cs.takeWhile (· ≠ '/'))
    if authority = "" ∨ authority = "localhost" then .ok (cs.dropWhile (· ≠ '/'))
    else .error (.foreignAuthority authority)
  | cs => .ok cs

/-- The options of a query, except those without a name. -/
def options (query : List Char) : List (String × String) :=
  ((query.splitOn '&').map fun option =>
    (Percent.decode (option.takeWhile (· ≠ '=')),
      Percent.decode ((option.dropWhile (· ≠ '=')).drop 1))).filter fun option => option.1 ≠ ""

def addOption (l : Location) : String × String → Except StorageFault Location
  | ("mode", name) =>
    match Mode.ofText? name with
    | none => .error (.unknownMode "access" name)
    | some mode =>
      if mode = .memory ∨ l.mode.admits mode then .ok { l with mode }
      else .error (.modeNotAllowed name)
  | ("cache", name) =>
    if name = "shared" ∨ name = "private" then .ok l else .error (.unknownMode "cache" name)
  | _ => .ok l

/-- Whether the value of an option says yes: by a word, or by a number that is not zero. -/
def saysYes (value : String) : Bool :=
  Text.decimalValue (value.toList.takeWhile Text.isAsciiDigit) ≠ 0 ||
    ["on", "yes", "true"].any (Text.equalFolded value)

def isSet (options : List (String × String)) (name : String) : Bool :=
  (options.lookup name).any saysYes

/-- How files are reached under some options, of which the last to name a way counts. -/
def reachOf (options : List (String × String)) : Except StorageFault Reach :=
  let name := (options.reverse.lookup "vfs").getD "unix"
  match Reach.ofText? name with
  | none => .error (.unknownReach name)
  | some .shared => .ok (if isSet options "nolock" then .alone else .shared)
  | some reach => .ok reach

/-- The location that a URI without its scheme stands for. -/
def ofUri (uri : List Char) : Except StorageFault Location := do
  let named := (← afterAuthority uri).takeWhile (· ≠ '#')
  let options := options ((named.dropWhile (· ≠ '?')).drop 1)
  let start : Location := { path := Percent.decode (named.takeWhile (· ≠ '?')) }
  let l ← options.foldlM addOption start
  return { l with reach := ← reachOf options, immutable := isSet options "immutable" }

def ofText (text : String) : Except StorageFault Location :=
  if text.toList.contains '\x00' then
    .error (.nulInPath (String.ofList (text.toList.takeWhile (· ≠ '\x00'))).utf8ByteSize)
  else
    match Text.after? "file:" text with
    | some uri => ofUri uri.toList
    | none => .ok { path := text }

end Location

end Crosswalk
