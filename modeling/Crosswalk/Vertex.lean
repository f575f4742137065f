import Crosswalk.StoredId

/-!
# Vertices

A vertex of the link graph stands for a requirement or a node. It is written as `CRE:` or `Node:`
and the identity. Requirements and nodes with one identity are different vertices.
-/

namespace Crosswalk

inductive Vertex where
  | requirement (id : StoredId)
  | node (id : StoredId)
deriving DecidableEq, Inhabited

namespace Vertex

def id : Vertex → StoredId
  | requirement id => id
  | node id => id

def isRequirement : Vertex → Bool
  | requirement _ => true
  | node _ => false

def requirement? : Vertex → Option StoredId
  | requirement id => some id
  | node _ => none

def text : Vertex → String
  | requirement id => "CRE:" ++ id.text
  | node id => "Node:" ++ id.text

/-- Reads a vertex: the text before the first colon names the sort, the rest is the identity. -/
def ofText? (s : String) : Option Vertex :=
  match Text.cutFirst ':' s.toList with
  | none => none
  | some (sort, rest) =>
    match StoredId.ofText? (String.ofList rest) with
    | none => none
    | some id =>
      if sort = "CRE".toList then some (requirement id)
      else if sort = "Node".toList then some (node id)
      else none

end Vertex

end Crosswalk
