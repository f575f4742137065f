import Crosswalk.Exchange.Sheet

/-!
# Writing sheets

The sheet of some documents has the columns that they need: as many groups for linked requirements
as the requirement with the most of them has, and a group for every document outside the catalogue
that a linked node or a node without links is an entry of. A requirement takes as many rows as its
largest group of nodes; its own columns repeat, and its linked requirements stand on the first row.
Nodes with links are not written by themselves, since the requirements hold those links.
-/

namespace Crosswalk.Sheet

variable {ι : Type}

/-! ### What the documents hold -/

def requirementsOf (documents : List (Document ι)) : List (Requirement ι × List (Link ι)) :=
  documents.filterMap fun d => d.entity.requirement?.map (·, d.links)

def standaloneNodes (documents : List (Document ι)) : List (Node ι) :=
  documents.filterMap fun d => if d.links.isEmpty then d.entity.node? else none

/-- The linked requirements, with their relations. -/
def linkedRequirements (links : List (Link ι)) : List (Relation × Requirement ι) :=
  links.filterMap fun l => l.peer.entity.requirement?.map (l.relation, ·)

/-- The linked nodes, with their relations. -/
def linkedNodes (links : List (Link ι)) : List (Relation × Node ι) :=
  links.filterMap fun l => l.peer.entity.node?.map (l.relation, ·)

/-- The kind and the document that a node is an entry of. -/
def groupOf (n : Node ι) : NodeKind × String :=
  (n.kind, n.name)

/-- The groups of some nodes, by kind and name, each once. -/
def groupsOf (nodes : List (Node ι)) : List (NodeKind × String) :=
  Text.sortOn NodeGroup.orderKey (nodes.map groupOf).eraseDups

/-! ### Headers -/

def peerHeaders (count : Nat) : List String :=
  (List.range count).flatMap fun i => peerAttributes.map (peerHeader i)

def groupHeaders (group : NodeKind × String) : List String :=
  (Attribute.ofKind group.1).map fun attr => NodeColumn.header ⟨group.1, group.2, attr⟩

def headersOf (documents : List (Document ι)) : List String :=
  let requirements := requirementsOf documents
  let count := (requirements.map fun (_, links) => (linkedRequirements links).length).foldl max 0
  let nodes := standaloneNodes documents ++
    requirements.flatMap fun (_, links) => (linkedNodes links).map (·.2)
  [idHeader, nameHeader, descriptionHeader] ++ peerHeaders count ++
    (groupsOf nodes).flatMap groupHeaders

/-! ### Rows -/

/-- The cells of a node under their headers; the relation stands in the column of its own. -/
def nodeCells (relation : String) (n : Node ι) : List (String × String) :=
  (Attribute.ofKind n.kind).map fun attr =>
    (NodeColumn.header ⟨n.kind, n.name, attr⟩,
      if attr = .linkType then relation else attr.valueOf n)

def requirementCells (r : Requirement ι) : List (String × String) :=
  [(idHeader, r.externalText), (nameHeader, r.name), (descriptionHeader, r.description)]

def peerCells (peers : List (Relation × Requirement ι)) : List (String × String) :=
  peers.zipIdx.flatMap fun ((relation, peer), i) =>
    [(peerHeader i "id", peer.externalText), (peerHeader i "name", peer.name),
      (peerHeader i "link_type", relation.text)]

/-- The row that has the given cells, empty under the other headers. -/
def rowOf (headers : List String) (cells : List (String × String)) : List String :=
  headers.map fun header => (cells.lookup header).getD ""

/-- The linked nodes of a requirement, one list for every group. -/
def byGroup (nodes : List (Relation × Node ι)) : List (List (Relation × Node ι)) :=
  (groupsOf (nodes.map (·.2))).map fun group => nodes.filter fun (_, n) => groupOf n = group

/-- The rows of a requirement; at least one. -/
def requirementRows (headers : List String) (r : Requirement ι) (links : List (Link ι)) :
    List (List String) :=
  let groups := byGroup (linkedNodes links)
  let count := max 1 ((groups.map List.length).foldl max 0)
  (List.range count).map fun n =>
    rowOf headers (requirementCells r ++
      (if n = 0 then peerCells (linkedRequirements links) else []) ++
      groups.flatMap fun group =>
        match group[n]? with
        | some (relation, node) => nodeCells relation.text node
        | none => [])

def pushAll (t : Table) (rows : List (List String)) : Table :=
  rows.foldl Table.pushFitted t

def encode (documents : List (Document ι)) : Table :=
  let headers := headersOf documents
  pushAll (.ofHeaders headers)
    ((requirementsOf documents).flatMap (fun (r, links) => requirementRows headers r links) ++
      (standaloneNodes documents).map fun n => rowOf headers (nodeCells "" n))

end Crosswalk.Sheet
