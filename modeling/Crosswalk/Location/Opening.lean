import Crosswalk.Database
import Crosswalk.Location
import Crosswalk.Workspace

/-!
# Opening a store

A store is opened where a location says, and the directories around its file are made. A file that
is missing or empty holds no store yet, so a new one is kept there. The store is kept again at the
end if it has changed. A new store whose changes are logged ahead is kept at the end in any case:
the log then goes into the file, whatever has become of the file since.
-/

namespace Crosswalk

structure Opened where
  location : Location
  archive : Archive
  isNew : Bool

namespace Location

/-! ### What is found -/

/-- The archive in the bytes of a file, or why there is none; a file of less than two bytes holds no
archive yet. Fresh identities in a database file start at a serial number. The text of the location
stands in the fault. -/
def archive? (l : Location) (text : String) (serial : Nat) :
    Except FileFault ByteArray → Except StorageFault (Option Archive)
  | .error .isADirectory => .error (if l.mode = .readOnly then .unreadable else .cannotOpen text)
  | .error _ => .error (.cannotOpen text)
  | .ok bytes =>
    if bytes.size < 2 then .ok none
    else
      match Archive.ofBytes? bytes, Database.archive? serial bytes with
      | some a, _ => .ok (some a)
      | none, some read => read.map some
      | none, none => .error .notADatabase

def newArchive (l : Location) (wantsLog : Bool) (serial : Nat) : Except StorageFault Archive :=
  if l.isReadOnly then .error .readOnly
  else if !l.isTransient && !l.hasRoomForLog then .error .cannotLog
  else .ok ⟨.startingAt serial, wantsLog && l.canLogAhead⟩

/-- An archive that is used again. Once changes are logged ahead, they always are; where they cannot
be, such an archive is used only if nobody changes its file. -/
def settle (l : Location) (wantsLog : Bool) (a : Archive) : Except StorageFault Archive :=
  if l.canLogAhead then
    if wantsLog && !a.logsAhead && l.isReadOnly then .error .readOnly
    else .ok { a with logsAhead := a.logsAhead || wantsLog }
  else if a.logsAhead && !l.immutable then .error .cannotLog
  else .ok a

end Location

/-! ### On a host -/

namespace Host

variable {m : Type → Type} [Monad m]

/-- The bytes of the file of a location, which is made if there is none and the location says so. -/
def readOrMake (host : Host m) (l : Location) : m (Except FileFault ByteArray) := do
  match ← host.read l.file with
  | .error .notFound =>
    if l.mode = .create then return (← host.write l.file .empty).map fun () => .empty
    else return .error .notFound
  | found => return found

/-- Keeps a store, unless its location is transient. -/
def keepStore (host : Host m) (opened : Opened) : m (Except FileFault Unit) := do
  if opened.location.isTransient then return .ok ()
  else host.write opened.location.file opened.archive.toBytes

def makeStore (host : Host m) (l : Location) (text : String) (wantsLog : Bool) :
    m (Except StorageFault Opened) := do
  match l.newArchive wantsLog (← host.newSerial) with
  | .error fault => return .error fault
  | .ok archive =>
    let opened : Opened := ⟨l, archive, true⟩
    match ← host.keepStore opened with
    | .error _ => return .error (.cannotOpen text)
    | .ok () => return .ok opened

def reuseStore (host : Host m) (l : Location) (text : String) (wantsLog : Bool) (archive : Archive) :
    m (Except StorageFault Opened) := do
  match l.settle wantsLog archive with
  | .error fault => return .error fault
  | .ok settled =>
    let opened : Opened := ⟨l, settled, false⟩
    if settled.logsAhead = archive.logsAhead then return .ok opened
    else
      match ← host.keepStore opened with
      | .error _ => return .error (.cannotOpen text)
      | .ok () => return .ok opened

def openLocation (host : Host m) (l : Location) (text : String) (wantsLog : Bool) :
    m (Except StorageFault Opened) := do
  if l.isTransient then host.makeStore l text wantsLog
  else if Location.greatestFile < l.file.utf8ByteSize then return .error (.cannotOpen text)
  else
    match l.archive? text (← host.newSerial) (← host.readOrMake l) with
    | .error fault => return .error fault
    | .ok none => host.makeStore l text wantsLog
    | .ok (some archive) => host.reuseStore l text wantsLog archive

/-- Opens the store at the location with a text. The directories around the file are those that
the text names when it is taken for a path. -/
def openStore (host : Host m) (text : String) (wantsLog : Bool) : m (Except Failure Opened) := do
  let outer := ((FilePath.parent? text).map FilePath.outwards).getD []
  match ← host.makeDirectories outer with
  | .error fault => return .error (.file fault)
  | .ok () =>
    match Location.ofText text with
    | .error fault => return .error (.storage fault)
    | .ok l => return (← host.openLocation l text wantsLog).mapError .storage

/-- Closes a store, with what it has become if it was changed. -/
def closeStore (host : Host m) (opened : Opened) (changed : Option Store) :
    m (Except FileFault Unit) := do
  match changed with
  | some store => host.keepStore { opened with archive := { opened.archive with store } }
  | none => if opened.isNew && opened.archive.logsAhead then host.keepStore opened else return .ok ()

end Host

end Crosswalk
