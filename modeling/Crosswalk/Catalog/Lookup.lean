import Crosswalk.Catalog
import Crosswalk.Store.Search

/-!
# Looking things up in a catalogue

Whatever is found comes with its links; the peers of these come without theirs.
-/

namespace Crosswalk

inductive Selector where
  | externalId (id : ExternalId)
  | name (name : String)
  | internalId (id : Uuid)
deriving DecidableEq

namespace Selector

def filter : Selector → Store.RequirementFilter
  | externalId id => { externalId := some id.text }
  | name s => { name := some s }
  | internalId id => { internalId := some id.text }

def text : Selector → String
  | externalId id => "CRE " ++ id.text
  | name s => s!"'{s}'"
  | internalId id => id.text

end Selector

structure Page where
  totalPages : Nat
  page : Nat
  items : List (Document StoredId)

namespace Catalog

/-- The first requirement that a selector asks for, with its links to the peers in the list, or
with all its links when the list is empty. -/
def findRequirement? (c : Catalog) (selector : Selector) (wanted : List String) :
    Option (Document StoredId) :=
  (c.store.getRequirements selector.filter).head?.map fun r =>
    (c.store.hydrate (.requirement r)).retainLinks wanted

/-- A page of the nodes of a kind that answer to a filter, which must ask for more than the kind.
The first page is taken, and the size of pages is that of the catalogue, unless asked otherwise. -/
def findNodes (c : Catalog) (kind : NodeKind) (filter : Store.NodeFilter)
    (page perPage : Option Nat) (wanted : List String) : Except Failure Page :=
  let page := max (page.getD 1) 1
  let perPage := max (perPage.getD c.itemsPerPage) 1
  if filter.hasOnlyKind then .error .emptyFilter
  else
    (c.store.getNodes { filter with kind := some kind }).map fun nodes =>
      { totalPages := Store.pageCount perPage nodes
        page
        items := (Store.pageOf page perPage nodes).map fun n =>
          (c.store.hydrate (.node n)).retainLinks wanted }

def findByTags (c : Catalog) (wanted : List String) : Except Failure (List (Document StoredId)) :=
  (c.store.tagged wanted).map fun entities => entities.map c.store.hydrate

/-- The requirements at the top of the hierarchy, in order. -/
def rootRequirements (c : Catalog) : List (Document StoredId) :=
  (Store.sortRequirements (c.index.roots.filterMap c.store.requirement?)).map fun r =>
    c.store.hydrate (.requirement r)

/-- The hyperlink of a node of a kind and a document: of the first with the given section
identifier that has one, or else of the first with the given section. -/
def smartlink? (c : Catalog) (kind : NodeKind) (name selector : String) : Option String :=
  if name = "" ∨ selector = "" then none
  else
    let link (filter : Store.NodeFilter) : Option String :=
      ((c.store.nodes.filter filter.accepts |> Store.sortNodes).find? fun n => n.hyperlink ≠ "").map
        (·.hyperlink)
    (link { kind := some kind, name := some name, sectionId := some selector }).or
      (link { kind := some kind, name := some name, sectionTitle := some selector })

/-- For every node with the first name, that node with its links, and after these a cross reference
to every other node with the second name that it is connected to. -/
def gapAnalysis (c : Catalog) (source target : String) : List (Document StoredId) :=
  if source = "" ∨ target = "" then []
  else
    let named (name : String) : List (Node StoredId) :=
      Store.sortNodes (c.store.nodes.filter
        (Store.NodeFilter.accepts { name := some name }))
    let labels := c.index.componentLabels
    let place (n : Node StoredId) : Option Nat := labels.lookup (.node n.id)
    let targets := (named target).filter fun n => (place n).isSome
    (named source).map fun n =>
      let reached := targets.filter fun t => place t = place n && t.id ≠ n.id
      .mk (.node n) (c.store.linksOf (.node n.id) ++
        reached.map fun t => .mk .linkedTo (.ofNode t))

end Catalog

end Crosswalk
