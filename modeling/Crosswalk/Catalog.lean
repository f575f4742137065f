import Crosswalk.Index
import Crosswalk.Store.Put

/-!
# Catalogues

A catalogue is a store and the link graph that reflects it. Entities are put into both, and so are
links; a link that would close a cycle in the hierarchy is dropped. A link from a child to its
parent is stored the other way round, as containment. A catalogue whose stored hierarchy has a
cycle can be read but refuses every change.
-/

namespace Crosswalk

structure Catalog where
  store : Store
  index : Index
  /-- How many nodes a page holds unless asked otherwise. -/
  itemsPerPage : Nat

inductive LinkOutcome where
  | created
  /-- The two entities were linked; the link has changed. -/
  | updated
  | unchanged
  /-- The link was dropped, since it would have closed this cycle. -/
  | cycleDropped (cycle : List Vertex)
deriving DecidableEq

namespace Catalog

variable {ι : Type}

/-! ### Opening -/

/-- The number of nodes on a page where nothing else is set. -/
def defaultItemsPerPage : Nat := 20

/-- The catalogue of a store: the graph is built from what is stored. -/
def ofStore (s : Store) (itemsPerPage : Nat) : Catalog :=
  ⟨s, Index.build s.vertices s.links, itemsPerPage⟩

def empty : Catalog :=
  ofStore .empty defaultItemsPerPage

instance : Inhabited Catalog := ⟨empty⟩

def reopen (c : Catalog) : Catalog :=
  ofStore c.store c.itemsPerPage

def guardWrite (c : Catalog) : Except Failure Unit :=
  match c.index.findCycle with
  | some cycle => .error (.fatalState cycle)
  | none => .ok ()

/-! ### Entities -/

/-- Puts a requirement into the store and its vertex into the graph. -/
def storeRequirement (c : Catalog) (r : Requirement ι) :
    Except Failure (Requirement StoredId × Catalog) :=
  (c.store.putRequirement r).map fun (stored, store) =>
    (stored, { c with store, index := c.index.addVertex (.requirement stored.id) })

/-- Puts a node into the store and its vertex into the graph. -/
def storeNode (c : Catalog) (n : Node ι) : Except Failure (Node StoredId × Catalog) :=
  (c.store.putNode n).map fun (stored, store) =>
    (stored, { c with store, index := c.index.addVertex (.node stored.id) })

/-- Puts an entity into the store and its vertex into the graph. -/
def storeEntity (c : Catalog) : Entity ι → Except Failure (Entity StoredId × Catalog)
  | .requirement r => (c.storeRequirement r).map fun (stored, c) => (.requirement stored, c)
  | .node n => (c.storeNode n).map fun (stored, c) => (.node stored, c)

/-! ### Links -/

/-- Writes a link: in the place of an existing one, which it takes over in the store and replaces
in the graph, or else as a new one. The store says at last whether it keeps the link; if it does not,
it is as before, and the graph is changed back. -/
def transactLink (c : Catalog) (commit : Except Failure Unit) (existing : Option StoredLink)
    (l : StoredLink) : Except Failure LinkOutcome × Catalog :=
  match c.store.writeLink existing l with
  | .error failure => (.error failure, c)
  | .ok store =>
    let index := c.index.replaceEdge existing l
    match commit with
    | .error failure => (.error failure, { c with index := index.takeBack existing l })
    | .ok () => (.ok (if existing.isSome then .updated else .created), { c with store, index })

/-- Writes a link into a store that keeps what it has accepted. -/
def writeLink (c : Catalog) (existing : Option StoredLink) (l : StoredLink) :
    Except Failure (LinkOutcome × Catalog) :=
  match c.transactLink (.ok ()) existing l with
  | (.error failure, _) => .error failure
  | (.ok outcome, c) => .ok (outcome, c)

/-- Writes a link between two entities, with the identity of the existing link or a fresh one. -/
def writeBetween (c : Catalog) (existing : Option StoredLink) (kind : LinkKind)
    (source target : StoredId) (relation : Relation) : Except Failure (LinkOutcome × Catalog) :=
  match existing with
  | some old => c.writeLink existing ⟨old.id, kind, source, target, relation, .plain⟩
  | none =>
    let (id, store) := c.store.draw
    { c with store }.writeLink none ⟨id, kind, source, target, relation, .plain⟩

/-- A link between requirements in the direction in which it is stored: a part is stored as
contained. -/
def orient (a b : StoredId) (relation : Relation) : StoredId × StoredId × Relation :=
  match relation with
  | .partOf => (b, a, .contains)
  | _ => (a, b, relation)

/-- Whether a stored link states a relation between two requirements, from either end. -/
def states (l : StoredLink) (source target : StoredId) (relation : Relation) : Bool :=
  (l.source = source && l.relation = relation) ||
    (l.source = target && l.relation = relation.inverse)

def joinRequirements (c : Catalog) (a b : StoredId) (relation : Relation) :
    Except Failure (LinkOutcome × Catalog) :=
  if (c.store.requirement? a).isNone then .error (.notFound (.requirement a))
  else if (c.store.requirement? b).isNone then .error (.notFound (.requirement b))
  else
    let (source, target, relation) := orient a b relation
    let existing := c.store.findLink? .internal source target
    if existing.any fun l => states l source target relation then .ok (.unchanged, c)
    else
      match c.index.introducesCycle source target relation with
      | .error failure => .error failure
      | .ok (some cycle) => .ok (.cycleDropped cycle, c)
      | .ok none => c.writeBetween existing .internal source target relation

def joinNode (c : Catalog) (requirement node : StoredId) (relation : Relation) :
    Except Failure (LinkOutcome × Catalog) :=
  if (c.store.requirement? requirement).isNone then .error (.notFound (.requirement requirement))
  else if (c.store.node? node).isNone then .error (.notFound (.node node))
  else
    let existing := c.store.findLink? .external requirement node
    if existing.any fun l => l.relation = relation then .ok (.unchanged, c)
    else
      match c.index.introducesCycle requirement node relation with
      | .error failure => .error failure
      | .ok (some cycle) => .ok (.cycleDropped cycle, c)
      | .ok none => c.writeBetween existing .external requirement node relation

/-! ### Changes -/

/-- Stores a requirement or fills in the one that it denotes. -/
def putRequirement (c : Catalog) (r : Requirement ι) :
    Except Failure (Requirement StoredId × Catalog) := do
  c.guardWrite
  c.storeRequirement r

/-- Stores a node or fills in the one that it denotes. -/
def putNode (c : Catalog) (n : Node ι) : Except Failure (Node StoredId × Catalog) := do
  c.guardWrite
  c.storeNode n

def linkRequirements (c : Catalog) (a b : StoredId) (relation : Relation) :
    Except Failure (LinkOutcome × Catalog) := do
  c.guardWrite
  c.joinRequirements a b relation

def linkNode (c : Catalog) (requirement node : StoredId) (relation : Relation) :
    Except Failure (LinkOutcome × Catalog) := do
  c.guardWrite
  c.joinNode requirement node relation

end Catalog

end Crosswalk
