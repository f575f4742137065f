import Crosswalk.Database.Record
import Crosswalk.Store.Archive
import Crosswalk.Store.LinkTable

/-!
# Stores in database files

A database file holds requirements, nodes and links in a table each, all of them as texts. Tags are a
list of quoted texts, and a text that is left out is empty. The identities of requirements and nodes
stand in plain spelling; those in the link table may be spelt in any way.
-/

namespace Crosswalk.Database

/-! ### Tags -/

/-- The character that a letter after a backslash stands for. -/
def escaped? : Char → Option Char
  | '"' => some '"'
  | '\\' => some '\\'
  | '/' => some '/'
  | 'b' => some '\x08'
  | 'f' => some '\x0c'
  | 'n' => some '\n'
  | 'r' => some '\r'
  | 't' => some '\t'
  | _ => none

/-- The characters of a quoted text after its first quote, and what follows it. -/
def readQuoted : List Char → Option (List Char × List Char)
  | [] => none
  | '"' :: cs => some ([], cs)
  | '\\' :: 'u' :: a :: b :: c :: d :: cs => do
    let n ← (Uuid.readHex 0 [a, b, c, d]).filter Nat.isValidChar
    let (text, rest) ← readQuoted cs
    return (Char.ofNat n :: text, rest)
  | '\\' :: c :: cs => do
    let e ← escaped? c
    let (text, rest) ← readQuoted cs
    return (e :: text, rest)
  | c :: cs => do
    let (text, rest) ← readQuoted cs
    return (c :: text, rest)

/-- The texts of a list without blanks, after its first bracket or a comma; the number bounds how many
there are. -/
def readTexts : Nat → List Char → Option (List String)
  | 0, _ => none
  | count + 1, cs =>
    match cs with
    | '"' :: cs =>
      match readQuoted cs with
      | some (text, [']']) => some [String.ofList text]
      | some (text, ',' :: rest) => (readTexts count rest).map (String.ofList text :: ·)
      | _ => none
    | _ => none

def readTags (text : String) : Option TagSet :=
  match text.toList with
  | ['[', ']'] => some .empty
  | '[' :: cs => (readTexts cs.length cs).map TagSet.ofList
  | _ => none

/-! ### Rows -/

/-- The identity of an entity, in its plain spelling only. -/
def readId (text : String) : Option StoredId :=
  (SpeltId.ofText? text).bind fun id => if id.spelling = .plain then some id.id else none

def readExternalId (text : String) : Option (Option ExternalId) :=
  if text = "" then some none else (ExternalId.ofText? text).map some

def requirementOf : List String → Option (Requirement StoredId)
  | [id, externalId, name, description, tags] => do
    return ⟨← readId id, ← readExternalId externalId, name, description, ← readTags tags⟩
  | _ => none

def nodeOf : List String → Option (Node StoredId)
  | [id, kind, name, title, subsection, sectionId, version, description, toolType, hyperlink,
      tags] => do
    let detail ← Archive.readDetail (← NodeKind.ofText? kind) title subsection sectionId version
      description toolType
    return ⟨← readId id, name, hyperlink, ← readTags tags, detail⟩
  | _ => none

def linkRowOf : List String → Option LinkRow
  | [id, kind, source, target, relation] => do
    return ⟨id, ← Archive.readLinkKind kind, source, target, relation⟩
  | _ => none

/-- What the rows of a table are read as. -/
def readTable {α : Type} (f : PagedFile) (name : String) (read : List String → Option α) :
    Option (List α) := do
  (← f.table name).mapM fun row => (row.mapM Column.text?).bind read

/-! ### Files -/

/-- The store in a file and whether its changes are logged ahead. Fresh identities start at a serial
number. -/
def archive? (serial : Nat) (bytes : ByteArray) : Option (Except StorageFault Archive) := do
  let f ← PagedFile.ofBytes? bytes
  let requirements ← readTable f "requirement" requirementOf
  let nodes ← readTable f "node" nodeOf
  let table ← readTable f "link" linkRowOf
  let s : Store := { Store.startingAt serial with requirements, nodes }
  return (s.withTable table).map fun store => ⟨store, f.logsAhead⟩

end Crosswalk.Database
