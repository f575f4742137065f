import Crosswalk.Catalog

/-!
# Importing documents

Documents are imported one by one: the entity is put into the catalogue, then the peer of each of
its links, and the two are linked. Links that peers hold are not followed. What fails is reported
and left out, and the next link or document is taken.
-/

namespace Crosswalk

variable {ι : Type}

structure ImportReport where
  documents : Nat := 0
  created : Nat := 0
  updated : Nat := 0
  unchanged : Nat := 0
  cyclesDropped : Nat := 0
  /-- The documents and links that were left out, with the reason. -/
  failures : List (String × Failure) := []

namespace ImportReport

def record (report : ImportReport) : LinkOutcome → ImportReport
  | .created => { report with created := report.created + 1 }
  | .updated => { report with updated := report.updated + 1 }
  | .unchanged => { report with unchanged := report.unchanged + 1 }
  | .cycleDropped _ => { report with cyclesDropped := report.cyclesDropped + 1 }

def fail (report : ImportReport) (label : String) (failure : Failure) : ImportReport :=
  { report with failures := report.failures ++ [(label, failure)] }

def countDocument (report : ImportReport) : ImportReport :=
  { report with documents := report.documents + 1 }

def text (report : ImportReport) : String :=
  s!"{report.documents} documents imported ({report.failures.length} failed); links: " ++
    s!"{report.created} created, {report.updated} updated, {report.unchanged} unchanged, " ++
    s!"{report.cyclesDropped} dropped as cycles"

end ImportReport

namespace Catalog

/-- Links a stored entity with a stored peer; a node sees the relation from its own end. -/
def joinEntities (c : Catalog) (stored peer : Entity StoredId) (relation : Relation) :
    Except Failure (LinkOutcome × Catalog) :=
  match stored, peer with
  | .requirement a, .requirement b => c.joinRequirements a.id b.id relation
  | .requirement r, .node n => c.joinNode r.id n.id relation
  | .node n, .requirement r => c.joinNode r.id n.id relation.inverse
  | .node _, .node _ => .error .nodeToNode

/-- Puts the peer of a link and links it with a stored entity. The peer stays stored when the
linking fails. -/
def importLink (c : Catalog) (stored : Entity StoredId) (link : Link ι) :
    Except Failure LinkOutcome × Catalog :=
  match c.storeEntity link.peer.entity with
  | .error failure => (.error failure, c)
  | .ok (peer, c) =>
    match c.joinEntities stored peer link.relation with
    | .error failure => (.error failure, c)
    | .ok (outcome, c) => (.ok outcome, c)

def linkLabel (e : Entity ι) (link : Link ι) : String :=
  e.label ++ " " ++ link.relation.text ++ " " ++ link.peer.label

/-- Imports the links of a document whose entity has been put. Only a hierarchy with a cycle makes
this fail; the failure comes with the catalogue as it is by then. -/
def importLinks (e : Entity ι) (stored : Entity StoredId) (state : Catalog × ImportReport) :
    List (Link ι) → Except (Catalog × Failure) (Catalog × ImportReport)
  | [] => .ok state
  | link :: links =>
    match state.1.importLink stored link with
    | (.ok outcome, c) => importLinks e stored (c, state.2.record outcome) links
    | (.error (.fatalState cycle), c) => .error (c, .fatalState cycle)
    | (.error failure, c) => importLinks e stored (c, state.2.fail (linkLabel e link) failure) links

def importDocument (state : Catalog × ImportReport) (d : Document ι) :
    Except (Catalog × Failure) (Catalog × ImportReport) :=
  match state.1.storeEntity d.entity with
  | .error (.fatalState cycle) => .error (state.1, .fatalState cycle)
  | .error failure => .ok (state.1, state.2.fail d.label failure)
  | .ok (stored, c) =>
    (importLinks d.entity stored (c, state.2) d.links).map fun (c, report) =>
      (c, report.countDocument)

/-- Imports documents one after the other, up to a failure. -/
def importDocuments (c : Catalog) (documents : List (Document ι)) :
    Except (Catalog × Failure) (Catalog × ImportReport) := do
  c.guardWrite.mapError fun failure => (c, failure)
  documents.foldlM importDocument (c, {})

def importAll (c : Catalog) (documents : List (Document ι)) :
    Except Failure (Catalog × ImportReport) :=
  (c.importDocuments documents).mapError Prod.snd

/-- The catalogue that an import has come to, also if it has failed. -/
def reached : Except (Catalog × Failure) (Catalog × ImportReport) → Catalog
  | .error (c, _) => c
  | .ok (c, _) => c

def afterImport (c : Catalog) (documents : List (Document ι)) : Catalog :=
  reached (c.importDocuments documents)

end Catalog

end Crosswalk
