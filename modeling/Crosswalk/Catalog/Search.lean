import Crosswalk.Catalog
import Crosswalk.Query
import Crosswalk.Store.Search

/-!
# Searching a catalogue by a free text

The text is read as a query and answered as such. If nothing is found that way, every entity with
the text in one of its fields is an answer. No entity is listed twice.
-/

namespace Crosswalk

def orderings {α : Type} (items : List α) : List (List α) :=
  go items.length items
where
  go : Nat → List α → List (List α)
    | 0, _ => [[]]
    | n + 1, items =>
      items.zipIdx.flatMap fun (first, i) => (go n (items.eraseIdx i)).map (first :: ·)

namespace Catalog

/-- The look-up of nodes whose name, section and subsection are the given coordinates. -/
def coordinateFilter (kind : NodeKind) (hyperlink : Option String) (coordinates : List String) :
    Store.NodeFilter :=
  { kind := some kind
    hyperlink
    name := coordinates[0]?
    sectionTitle := coordinates[1]?
    subsection := coordinates[2]? }

/-- The nodes of a kind with the given coordinates in any order. -/
def nodesAt (c : Catalog) (kind : NodeKind) (tokens : List String) (hyperlink : Option String) :
    List (Node StoredId) :=
  (orderings tokens).flatMap fun coordinates =>
    Store.sortNodes (c.store.nodes.filter
      (coordinateFilter kind hyperlink coordinates).accepts)

def named (c : Catalog) : Query → List (Entity StoredId)
  | .externalId id => (c.store.getRequirements { externalId := some id.text }).map .requirement
  | .requirementName name => (c.store.getRequirements { name := some name }).map .requirement
  | .nodes kind tokens hyperlink => (c.nodesAt kind tokens hyperlink).map .node
  | .text _ => []

/-- The entities with a text in one of their fields, requirements first. -/
def mentioning (c : Catalog) (text : String) : List (Entity StoredId) :=
  (c.store.searchRequirements text).map .requirement ++ (c.store.searchNodes text).map .node

/-- The entities that answer to a text, each once. -/
def answering (c : Catalog) (text : String) : List (Entity StoredId) :=
  let found := c.named (.ofText text)
  let trimmed := Text.trim text
  if !found.isEmpty then found.eraseDupsBy fun a b => a.vertex == b.vertex
  else if trimmed = "" then []
  else (c.mentioning trimmed).eraseDupsBy fun a b => a.vertex == b.vertex

/-- The entities that answer to a text, with their links. -/
def textSearch (c : Catalog) (text : String) : List (Document StoredId) :=
  (c.answering text).map c.store.hydrate

end Catalog

end Crosswalk
