import Crosswalk.Store

/-!
# The link table

Links are kept as rows of texts. A store is opened on such rows by reading them in their order; a row
with an identity or a relation that is none keeps the store from being opened.
-/

namespace Crosswalk

/-- A row of the link table. -/
structure LinkRow where
  id : String
  kind : LinkKind
  source : String
  target : String
  relation : String
deriving DecidableEq

namespace LinkRow

/-- The schema compares the texts as they stand. -/
def key (r : LinkRow) : LinkKey String :=
  ⟨r.id, r.kind, r.source, r.target⟩

/-- Reads the identity in a column, given by its number. -/
def readId (column : Nat) (text : String) : Except StorageFault SpeltId :=
  match SpeltId.ofText? text with
  | some id => .ok id
  | none => .error (.unreadableText column)

def readRelation (column : Nat) (text : String) : Except StorageFault Relation :=
  match Relation.ofText? text with
  | some relation => .ok relation
  | none => .error (.unreadableText column)

def read (r : LinkRow) : Except StorageFault StoredLink := do
  let id ← readId 0 r.id
  let source ← readId 2 r.source
  let target ← readId 3 r.target
  let relation ← readRelation 4 r.relation
  return ⟨id.id, r.kind, source.id, target.id, relation,
    ⟨id.spelling, source.spelling, target.spelling⟩⟩

end LinkRow

/-- The store with the links that a table holds. -/
def Store.withTable (s : Store) (table : List LinkRow) : Except StorageFault Store :=
  (table.mapM LinkRow.read).map fun links => { s with links }

end Crosswalk
