import Crosswalk.Failure
import Crosswalk.FilePath
import Crosswalk.Text.Order

/-!
# Files

A program sees files through a host: it asks whether a path leads to a directory, lists
directories, reads and writes files and makes directories. A workspace is a tree of files held as a
value, and it is a host for computations that change it.
-/

namespace Crosswalk

/-- What a program may ask of the files around it. Effects take place in `m`. -/
structure Host (m : Type → Type) where
  isDirectory : String → m Bool
  names : String → m (List String)
  read : String → m (Except FileFault ByteArray)
  write : String → ByteArray → m (Except FileFault Unit)
  makeDirectory : String → m (Except FileFault Unit)
  /-- A serial number at which the identities of a new catalogue may start. -/
  newSerial : m Nat

inductive Workspace.Item where
  | directory
  | file (bytes : ByteArray)

/-- A tree of files. Places are the names by which they are reached from the root, which is also
the working directory. -/
structure Workspace where
  items : List (List String × Workspace.Item)
  serial : Nat

namespace Workspace

def item? (w : Workspace) (place : List String) : Option Item :=
  if place = [] then some .directory else w.items.lookup place

def put (w : Workspace) (place : List String) (item : Item) : Workspace :=
  { w with items := w.items.filter (fun other => other.1 ≠ place) ++ [(place, item)] }

/-- The place that is reached from another one by the parts of a path. Every part but the last
must lead to a directory, and none may be too long. -/
def walk (w : Workspace) (place : List String) : List String → Except FileFault (List String)
  | [] => .ok place
  | part :: rest =>
    match w.item? place with
    | none => .error .notFound
    | some (.file _) => .error .notADirectory
    | some .directory =>
      if FilePath.greatestPart < part.utf8ByteSize then .error .nameTooLong
      else w.walk (if part = ".." then place.dropLast else place ++ [part]) rest

def place (w : Workspace) (path : String) : Except FileFault (List String) :=
  if path = "" then .error .notFound
  else if path.toList.contains '\x00' then .error .nulInName
  else if FilePath.greatestPath < path.utf8ByteSize then .error .nameTooLong
  else w.walk [] (FilePath.parts path)

def isDirectory (w : Workspace) (path : String) : Bool :=
  match w.place path with
  | .error _ => false
  | .ok place =>
    match w.item? place with
    | some .directory => true
    | _ => false

def names (w : Workspace) (path : String) : List String :=
  match w.place path with
  | .ok place =>
    w.items.filterMap fun (other, _) => if other.dropLast = place then other.getLast? else none
  | .error _ => []

def read (w : Workspace) (path : String) : Except FileFault ByteArray := do
  match w.item? (← w.place path) with
  | none => .error .notFound
  | some .directory => .error .isADirectory
  | some (.file bytes) =>
    if FilePath.namesDirectory path then .error .notADirectory else .ok bytes

/-- The workspace with bytes in the file at a path. -/
def write (w : Workspace) (path : String) (bytes : ByteArray) : Except FileFault Workspace := do
  let place ← w.place path
  match w.item? place with
  | some .directory => .error .isADirectory
  | item =>
    if FilePath.endsInDot path then .error (if item.isSome then .notADirectory else .notFound)
    else if FilePath.namesDirectory path then .error .isADirectory
    else .ok (w.put place (.file bytes))

def makeDirectory (w : Workspace) (path : String) : Except FileFault Workspace := do
  let place ← w.place path
  match w.item? place with
  | some _ => .error .alreadyExists
  | none => .ok (w.put place .directory)

/-- Replaces the workspace by the one that a change gives. -/
def apply (change : Workspace → Except FileFault Workspace) :
    StateM Workspace (Except FileFault Unit) := fun w =>
  match change w with
  | .ok changed => (.ok (), changed)
  | .error fault => (.error fault, w)

def host : Host (StateM Workspace) where
  isDirectory path := fun w => (w.isDirectory path, w)
  names path := fun w => (w.names path, w)
  read path := fun w => (w.read path, w)
  write path bytes := apply (·.write path bytes)
  makeDirectory path := apply (·.makeDirectory path)
  newSerial := fun w => (w.serial, { w with serial := w.serial + 1 <<< 32 })

end Workspace

namespace Host

variable {m : Type → Type} [Monad m]

def readText (host : Host m) (path : String) : m (Except FileFault String) := do
  match ← host.read path with
  | .error fault => return .error fault
  | .ok bytes =>
    match String.fromUTF8? bytes with
    | some text => return .ok text
    | none => return .error .notUtf8

/-- Makes the first of some directories, each of which lies inside the next one, and those of the
others that it needs. -/
def makeDirectories (host : Host m) : List String → m (Except FileFault Unit)
  | [] => return .ok ()
  | path :: outer => do
    match ← host.makeDirectory path with
    | .ok () => return .ok ()
    | .error .notFound =>
      match ← host.makeDirectories outer with
      | .error fault => return .error fault
      | .ok () => settle path (← host.makeDirectory path)
    | .error fault => settle path (.error fault)
where
  settle (path : String) (made : Except FileFault Unit) : m (Except FileFault Unit) := do
    match made with
    | .ok () => return .ok ()
    | .error fault => if ← host.isDirectory path then return .ok () else return .error fault

/-- The greatest number of directories that can lie inside each other. -/
def greatestDepth : Nat := 4096

/-- The files under a directory whose names end in a given way, by name at every level; `depth`
bounds how far down they are sought. -/
def filesUnder (host : Host m) (wanted : String → Bool) (directory : String) :
    Nat → m (List String)
  | 0 => return []
  | depth + 1 => do
    let names := Text.sortOn (fun name => [name]) (← host.names directory)
    let found ← names.mapM fun name => do
      let path := FilePath.join directory name
      if ← host.isDirectory path then host.filesUnder wanted path depth
      else return if wanted name then [path] else []
    return found.flatten

end Host

end Crosswalk
