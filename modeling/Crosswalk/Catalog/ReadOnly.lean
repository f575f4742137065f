import Crosswalk.Catalog.Import

/-!
# Importing into a catalogue that stays as it is

Where the store must not change, an import only finds out what is stored already: entities that are
known and add nothing, and links that are known or would close a cycle. Everything else fails.
-/

namespace Crosswalk.Catalog

variable {ι α : Type}

/-- What a change gives where the store must not change. -/
def unaltered (c : Catalog) (change : Except Failure (α × Catalog)) : Except Failure α :=
  match change with
  | .error failure => .error failure
  | .ok (result, changed) =>
    if changed.store = c.store then .ok result else .error (.storage .readOnly)

def findOutcome (c : Catalog) (stored : Entity StoredId) (link : Link ι) :
    Except Failure LinkOutcome := do
  let peer ← c.unaltered (c.storeEntity link.peer.entity)
  c.unaltered (c.joinEntities stored peer link.relation)

def tallyLink (c : Catalog) (e : Entity ι) (stored : Entity StoredId) (report : ImportReport)
    (link : Link ι) : ImportReport :=
  match c.findOutcome stored link with
  | .error failure => report.fail (linkLabel e link) failure
  | .ok outcome => report.record outcome

def tallyDocument (c : Catalog) (report : ImportReport) (d : Document ι) : ImportReport :=
  match c.unaltered (c.storeEntity d.entity) with
  | .error failure => report.fail d.label failure
  | .ok stored => (d.links.foldl (c.tallyLink d.entity stored) report).countDocument

/-- Imports documents into a catalogue that stays as it is. -/
def importReadOnly (c : Catalog) (documents : List (Document ι)) : Except Failure ImportReport := do
  c.guardWrite
  return documents.foldl c.tallyDocument {}

end Crosswalk.Catalog
