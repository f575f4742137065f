import Crosswalk.Vertex

/-!
# Failures

Every way in which an operation can fail, by its cause, and the wording of each. A failure that
comes from a file or from the stored catalogue has further causes, which a command line shows below
the message.
-/

namespace Crosswalk

/-- What is wrong with a table or with one of its cells. -/
inductive TableFault where
  | unterminatedField
  /-- A row has a cell that is not empty past the last header. -/
  | surplusCells (cells headers : Nat)
  /-- The fault lies in the record with this number; the header is record one. -/
  | inRecord (number : Nat) (fault : TableFault)
  | malformedColumn (header : String)
  | unknownAttribute (text : String)
  | unrecognisedColumn (header : String)
  /-- A linked requirement has an identifier but no name under this header. -/
  | peerWithoutName (header : String)
  | noLevels
  | badVertex (text : String)
deriving DecidableEq

def TableFault.message : TableFault → String
  | unterminatedField => "unterminated quoted field"
  | surplusCells cells headers => s!"{cells} cells for {headers} headers"
  | inRecord number fault => s!"record {number}: " ++ fault.message
  | malformedColumn header => s!"malformed node column '{header}'"
  | unknownAttribute text => s!"unknown attribute '{text}'"
  | unrecognisedColumn header => s!"unrecognised column '{header}'"
  | peerWithoutName header => s!"{header} has an id but no name"
  | noLevels => "no 'CRE hierarchy <n>' columns"
  | badVertex text => s!"invalid vertex key '{text}'"

structure Conflict where
  /-- The entity, as it is labelled. -/
  entity : String
  field : String
  existing : String
  incoming : String
deriving DecidableEq

def Conflict.message (c : Conflict) : String :=
  s!"conflict on {c.entity}: field '{c.field}' is '{c.existing}', refusing to overwrite with '{c.incoming}'"

inductive StorageFault where
  /-- The path has a NUL as its byte with this number. -/
  | nulInPath (position : Nat)
  | foreignAuthority (authority : String)
  /-- A location asks for an unknown mode of this sort. -/
  | unknownMode (sort mode : String)
  /-- A location asks for more than it was content with before. -/
  | modeNotAllowed (mode : String)
  | unknownReach (name : String)
  | cannotOpen (path : String)
  /-- The file in which changes are logged cannot be kept. -/
  | cannotLog
  | unreadable
  | readOnly
  | notADatabase
  | duplicate (key : String)
  | missingSource
  /-- A column of a row, counted from zero, holds a text that cannot be read as what it stands for. -/
  | unreadableText (column : Nat)
  | queryTooDeep
deriving DecidableEq

def StorageFault.message : StorageFault → String
  | nulInPath position => s!"nul byte found in provided data at position: {position}"
  | foreignAuthority authority => s!"invalid uri authority: {authority}"
  | unknownMode sort mode => s!"no such {sort} mode: {mode}"
  | modeNotAllowed mode => s!"access mode not allowed: {mode}"
  | unknownReach name => s!"no such vfs: {name}"
  | cannotOpen path => s!"unable to open database file: {path}"
  | cannotLog => "unable to open database file"
  | unreadable => "disk I/O error"
  | readOnly => "attempt to write a readonly database"
  | notADatabase => "file is not a database"
  | duplicate key => s!"UNIQUE constraint failed: {key}"
  | missingSource => "FOREIGN KEY constraint failed"
  | unreadableText column => s!"Conversion error from type Text at index: {column}"
  | queryTooDeep => "Expression tree is too large (maximum depth 1000)"

/-- The cause behind a storage fault: an error code in words, unless the fault is seen before the
storage is asked. -/
def StorageFault.cause : StorageFault → String
  | nulInPath position => (nulInPath position).message
  | foreignAuthority _ | unknownMode .. | unknownReach _ | queryTooDeep =>
    "Error code 1: SQL error or missing database"
  | modeNotAllowed _ => "Error code 3: Access permission denied"
  | readOnly => "Error code 8: Attempt to write a readonly database"
  | cannotOpen _ | cannotLog => "Error code 14: Unable to open the database file"
  | unreadable => "Error code 266: Error reading from disk"
  | notADatabase => "Error code 26: File opened that is not a database file"
  | duplicate _ => "Error code 2067: A UNIQUE constraint failed"
  | missingSource => "Error code 787: A foreign key constraint failed"
  | unreadableText column => (unreadableText column).message

inductive FileFault where
  | notFound
  | alreadyExists
  | notADirectory
  | isADirectory
  | nameTooLong
  | nulInName
  | notUtf8
  | other (text : String)
deriving DecidableEq

def FileFault.message : FileFault → String
  | notFound => "No such file or directory (os error 2)"
  | alreadyExists => "File exists (os error 17)"
  | notADirectory => "Not a directory (os error 20)"
  | isADirectory => "Is a directory (os error 21)"
  | nameTooLong => "File name too long (os error 36)"
  | nulInName => "file name contained an unexpected NUL byte"
  | notUtf8 => "stream did not contain valid UTF-8"
  | other text => text

inductive Failure where
  | externalId (text : String)
  | relation (text : String)
  | emptyFilter
  | emptyName
  | nodeKind (text : String)
  | toolType (text : String)
  | nodeToNode
  | table (fault : TableFault)
  | conflict (conflict : Conflict)
  | notFound (vertex : Vertex)
  /-- The stored hierarchy has a cycle through these vertices; nothing is written any more. -/
  | fatalState (cycle : List Vertex)
  | storage (fault : StorageFault)
  | file (fault : FileFault)
deriving DecidableEq

namespace Failure

def showCycle (cycle : List Vertex) : String :=
  " -> ".intercalate (cycle.map Vertex.text)

def message : Failure → String
  | externalId text =>
    s!"invalid external id '{text}': expected two groups of three digits, e.g. '123-456'"
  | relation text => s!"unknown relation '{text}'"
  | emptyFilter => "at least one filter key must be non-empty"
  | emptyName => "entity name must not be empty"
  | nodeKind text => s!"unknown node kind '{text}'"
  | toolType text => s!"unknown tool type '{text}'"
  | nodeToNode => "nodes cannot be linked to other nodes"
  | table fault => "malformed table: " ++ fault.message
  | conflict c => c.message
  | notFound vertex => vertex.text ++ " not found"
  | fatalState cycle => "persisted hierarchy contains a cycle: " ++ showCycle cycle
  | storage fault => "storage error: " ++ fault.message
  | file fault => "io error: " ++ fault.message

/-- The causes behind a failure, nearest first. -/
def causes : Failure → List String
  | storage fault => [fault.message, fault.cause]
  | file fault => [fault.message]
  | _ => []

end Failure

end Crosswalk
