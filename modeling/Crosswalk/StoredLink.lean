import Crosswalk.Failure
import Crosswalk.Relation
import Crosswalk.Spelling
import Crosswalk.Vertex

/-!
# Stored links

A stored link leads from a requirement to a requirement or to a node and has an identity of its
own. The three identities stand in the link table as texts, and the table is searched and kept free
of duplicates by these texts: two spellings of one identity are different there.
-/

namespace Crosswalk

inductive LinkKind where
  | internal
  | external
deriving DecidableEq, Inhabited

namespace LinkKind

def text : LinkKind → String
  | internal => "internal"
  | external => "external"

/-- Whether a link of the kind joins two entities, given its ends; internal links do so in either
order. -/
def joins {τ : Type} [DecidableEq τ] (kind : LinkKind) (source target a b : τ) : Bool :=
  match kind with
  | .internal => (source = a && target = b) || (source = b && target = a)
  | .external => source = a && target = b

end LinkKind

/-! ### What the link table compares -/

/-- What the rows of the link table are told apart by. The identity of a row and those of its ends
are compared in the form `τ`. -/
structure LinkKey (τ : Type) where
  id : τ
  kind : LinkKind
  source : τ
  target : τ

namespace LinkKey

variable {τ : Type} [DecidableEq τ]

/-- What keeps a row out of the link table beside some other rows. -/
def fault? (isRequirement : τ → Bool) (others : List (LinkKey τ)) (k : LinkKey τ) :
    Option StorageFault :=
  if others.any fun o => o.id = k.id then some (.duplicate "link.id")
  else if others.any fun o => o.kind = k.kind && o.source = k.source && o.target = k.target then
    some (.duplicate "link.kind, link.source, link.target")
  else if others.any fun o => o.kind = k.kind && o.kind = .internal &&
      o.kind.joins o.source o.target k.source k.target then
    some (.duplicate "index 'link_internal_pair'")
  else if isRequirement k.source then none
  else some .missingSource

end LinkKey

/-! ### Links -/

/-- How a row of the link table spells its identities. -/
structure LinkSpelling where
  id : Spelling
  source : Spelling
  target : Spelling
deriving DecidableEq, Inhabited

/-- The spellings of a row as it is written. -/
def LinkSpelling.plain : LinkSpelling :=
  ⟨.plain, .plain, .plain⟩

structure StoredLink where
  id : StoredId
  kind : LinkKind
  source : StoredId
  target : StoredId
  relation : Relation
  spelling : LinkSpelling
deriving DecidableEq

namespace StoredLink

def sourceVertex (l : StoredLink) : Vertex :=
  .requirement l.source

def targetVertex (l : StoredLink) : Vertex :=
  match l.kind with
  | .internal => .requirement l.target
  | .external => .node l.target

/-- The parent and the child that the link relates, if it is internal and hierarchical. -/
def arrow? (l : StoredLink) : Option (StoredId × StoredId) :=
  match l.kind, l.relation with
  | .internal, .contains => some (l.source, l.target)
  | .internal, .partOf => some (l.target, l.source)
  | _, _ => none

def key (l : StoredLink) : LinkKey SpeltId where
  id := ⟨l.id, l.spelling.id⟩
  kind := l.kind
  source := ⟨l.source, l.spelling.source⟩
  target := ⟨l.target, l.spelling.target⟩

/-- Whether the link joins two entities of its kind, however its ends are spelt. -/
def joins (l : StoredLink) (a b : StoredId) : Bool :=
  l.kind.joins l.source l.target a b

/-- Whether both ends are spelt as they are where the entities are stored, so that they are found. -/
def endsPlain (l : StoredLink) : Bool :=
  l.spelling.source = .plain && l.spelling.target = .plain

end StoredLink

end Crosswalk
