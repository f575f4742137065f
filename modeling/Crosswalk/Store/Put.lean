import Crosswalk.Store

/-!
# Putting entities and links into a store

An incoming entity is matched with a stored one by its natural key. The match is filled in, and if
there is none, the entity is stored with a trimmed name and a fresh identity. A link is stored or
updated as it is, but no two links have one identity or join the same two entities, and every
source is a stored requirement; identities are compared as they are spelt.
-/

namespace Crosswalk.Store

variable {ι : Type}

/-! ### Requirements -/

/-- The stored requirement that an incoming one denotes. Of those with its name, an incoming
identifier asks for the one that has it, then for one that has none; without an identifier the one
of the same description comes first. Failing that, the first with the name is taken. -/
def matchRequirement? (s : Store) (r : Requirement ι) : Option (Requirement StoredId) :=
  let named := s.requirements.filter fun stored => stored.name = Text.trim r.name
  match r.externalId with
  | some id =>
    ((named.find? fun stored => stored.externalText = id.text).or
      (named.find? fun stored => stored.externalText = "")).or named.head?
  | none => (named.find? fun stored => stored.description = r.description).or named.head?

/-- The store with a requirement in the place of the one with its identity. -/
def replaceRequirement (s : Store) (r : Requirement StoredId) : Store :=
  { s with requirements := s.requirements.map fun stored => if stored.id = r.id then r else stored }

/-- What the stored requirements keep unique beside the identity. -/
def nameTaken (others : List (Requirement StoredId)) (r : Requirement StoredId) : Bool :=
  others.any fun stored => stored.name = r.name && stored.externalText = r.externalText

/-- Replaces the requirement with an identity, unless another one has the name and the identifier. -/
def updateRequirement (s : Store) (r : Requirement StoredId) : Except Failure Store :=
  if nameTaken (s.requirements.filter fun stored => stored.id ≠ r.id) r then
    .error (.storage (.duplicate "requirement.name, requirement.external_id"))
  else .ok (s.replaceRequirement r)

def insertRequirement (s : Store) (r : Requirement StoredId) : Except Failure Store :=
  if s.requirements.any fun stored => stored.id = r.id then
    .error (.storage (.duplicate "requirement.id"))
  else if nameTaken s.requirements r then
    .error (.storage (.duplicate "requirement.name, requirement.external_id"))
  else .ok { s with requirements := s.requirements ++ [r] }

/-- Stores a requirement or fills in the one that it denotes. -/
def putRequirement (s : Store) (r : Requirement ι) :
    Except Failure (Requirement StoredId × Store) :=
  if Text.trim r.name = "" then .error .emptyName
  else
    match s.matchRequirement? r with
    | some stored =>
      match stored.enrich r with
      | .error c => .error (.conflict c)
      | .ok (filled, changed) =>
        if changed then (s.updateRequirement filled).map fun s => (filled, s) else .ok (filled, s)
    | none =>
      let (id, s) := s.draw
      let inserted := { r.withId id with name := Text.trim r.name }
      (s.insertRequirement inserted).map fun s => (inserted, s)

/-! ### Nodes -/

/-- The key of an incoming node, its name trimmed. -/
def incomingKey (n : Node ι) : NodeKey :=
  { n.key with name := Text.trim n.name }

def matchNode? (s : Store) (n : Node ι) : Option (Node StoredId) :=
  s.nodes.find? fun stored => stored.key = incomingKey n

/-- The store with a node in the place of the one with its identity. What filling in a node changes is
in no unique index. -/
def replaceNode (s : Store) (n : Node StoredId) : Store :=
  { s with nodes := s.nodes.map fun stored => if stored.id = n.id then n else stored }

def insertNode (s : Store) (n : Node StoredId) : Except Failure Store :=
  if s.nodes.any fun stored => stored.id = n.id then .error (.storage (.duplicate "node.id"))
  else if s.nodes.any fun stored => stored.key = n.key then
    .error (.storage (.duplicate
      "node.name, node.section, node.subsection, node.kind, node.description, node.version"))
  else .ok { s with nodes := s.nodes ++ [n] }

/-- Stores a node or fills in the one that it denotes. -/
def putNode (s : Store) (n : Node ι) : Except Failure (Node StoredId × Store) :=
  if Text.trim n.name = "" then .error .emptyName
  else
    match s.matchNode? n with
    | some stored =>
      match stored.enrich n with
      | .error c => .error (.conflict c)
      | .ok (filled, changed) => .ok (filled, if changed then s.replaceNode filled else s)
    | none =>
      let (id, s) := s.draw
      let inserted := { n.withId id with name := Text.trim n.name }
      (s.insertNode inserted).map fun s => (inserted, s)

/-! ### Links -/

/-- What keeps a link out of a store beside some other links. -/
def linkFault? (s : Store) (others : List StoredLink) (l : StoredLink) : Option StorageFault :=
  l.key.fault? (fun source => source.spelling = .plain && (s.requirement? source.id).isSome)
    (others.map StoredLink.key)

def insertLink (s : Store) (l : StoredLink) : Except Failure Store :=
  match s.linkFault? s.links l with
  | some fault => .error (.storage fault)
  | none => .ok { s with links := s.links ++ [l] }

/-- The store in which the link whose identity has the text of the given one has its ends and its
relation; no link has that text, nothing changes. -/
def updateLink (s : Store) (l : StoredLink) : Except Failure Store :=
  match s.links.find? fun o => o.key.id = l.key.id with
  | none => .ok s
  | some old =>
    let l := { l with kind := old.kind }
    match s.linkFault? (s.links.filter fun o => o.key.id ≠ l.key.id) l with
    | some fault => .error (.storage fault)
    | none => .ok { s with links := s.links.map fun o => if o.key.id = l.key.id then l else o }

/-- Stores a link: in the place of an existing one, or as a new one. -/
def writeLink (s : Store) (existing : Option StoredLink) (l : StoredLink) : Except Failure Store :=
  match existing with
  | some _ => s.updateLink l
  | none => s.insertLink l

end Crosswalk.Store
