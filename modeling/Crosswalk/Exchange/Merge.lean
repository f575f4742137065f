import Crosswalk.Document
import Crosswalk.Failure

/-!
# Merging documents read from a table

The rows of a table are read one after the other, and the documents of a row are added to those
read before. A document whose merge key is new is added as it is; otherwise it fills in the one
that has the key and adds its links to it. A conflict leaves out that document and the rest of its
row, and is reported with the number of the row.
-/

namespace Crosswalk

/-- The text under which documents are merged: the public identifier or else the name of a
requirement, and all parts of the key of a node. -/
def mergeKey {ι : Type} : Entity ι → String
  | .requirement r =>
    match r.externalId with
    | some id => "CRE:id:" ++ id.text
    | none => "CRE:name:" ++ r.name
  | .node n =>
    "\u001f".intercalate [n.kind.text, n.name, n.sectionTitle, n.subsection, n.description,
      n.version]

/-- What was read from a table: the documents, and the rows that were skipped with the reason; the
first row below the headers has number one. -/
structure Decoded where
  documents : List (Document Unit)
  failures : List (Nat × Failure)

/-- The documents read so far under their merge keys, and the rows skipped so far. -/
structure Merged where
  entries : List (String × Document Unit)
  failures : List (Nat × Failure)

namespace Merged

def empty : Merged :=
  ⟨[], []⟩

/-- A stored entity filled in from an incoming one of its sort. -/
def fillEntity : Entity Unit → Entity Unit → Except Conflict (Entity Unit)
  | .requirement stored, .requirement incoming =>
    (stored.enrich incoming).map fun (r, _) => .requirement r
  | .node stored, .node incoming => (stored.enrich incoming).map fun (n, _) => .node n
  | stored, _ => .ok stored

/-- A document filled in from another one, with the links of both. -/
def fillDocument (stored incoming : Document Unit) : Except Conflict (Document Unit) :=
  (fillEntity stored.entity incoming.entity).map fun entity =>
    incoming.links.foldl Document.addLink (.mk entity stored.links)

def addEntry (key : String) (d : Document Unit) :
    List (String × Document Unit) → Except Conflict (List (String × Document Unit))
  | [] => .ok [(key, d)]
  | (k, stored) :: entries =>
    if k = key then (fillDocument stored d).map fun filled => (k, filled) :: entries
    else (addEntry key d entries).map ((k, stored) :: ·)

/-- Adds the documents of a row in order, up to the first conflict. -/
def addAll (m : Merged) (row : Nat) : List (Document Unit) → Merged
  | [] => m
  | d :: ds =>
    match addEntry (mergeKey d.entity) d m.entries with
    | .ok entries => addAll { m with entries } row ds
    | .error c => { m with failures := m.failures ++ [(row, .conflict c)] }

def addRow (m : Merged) (row : Nat) : Except Failure (List (Document Unit)) → Merged
  | .ok documents => m.addAll row documents
  | .error failure => { m with failures := m.failures ++ [(row, failure)] }

/-- The documents in the order in which they were first seen, and the rows skipped. -/
def decoded (m : Merged) : Decoded :=
  ⟨m.entries.map (·.2), m.failures⟩

end Merged

end Crosswalk
