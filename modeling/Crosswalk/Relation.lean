import Crosswalk.Text.Blank

/-!
# Relations

The label of a link, read from the entity that holds it. Containment, remediation and testing come
in inverse pairs; the other relations are their own inverses. A relation is written in one way and
read loosely: case, blanks and underscores do not count.
-/

namespace Crosswalk

/-- How the holder of a link stands to the entity at its other end. -/
inductive Relation where
  | same
  | linkedTo
  | partOf
  | contains
  /-- A loose relation, which does not count when the tops of the hierarchy are sought. -/
  | related
  | automaticallyLinkedTo
  | remediatedBy
  | remediates
  | testedBy
  | tests
deriving DecidableEq, Inhabited

namespace Relation

def all : List Relation :=
  [same, linkedTo, partOf, contains, related, automaticallyLinkedTo, remediatedBy, remediates,
    testedBy, tests]

/-- The relation as it is seen from the other end of the link. -/
def inverse : Relation → Relation
  | partOf => contains
  | contains => partOf
  | remediatedBy => remediates
  | remediates => remediatedBy
  | testedBy => tests
  | tests => testedBy
  | same => same
  | linkedTo => linkedTo
  | related => related
  | automaticallyLinkedTo => automaticallyLinkedTo

def isHierarchical : Relation → Bool
  | contains | partOf => true
  | _ => false

def isSymmetric (r : Relation) : Bool :=
  r.inverse = r

def text : Relation → String
  | same => "SAME"
  | linkedTo => "Linked To"
  | partOf => "Is Part Of"
  | contains => "Contains"
  | related => "Related"
  | automaticallyLinkedTo => "Automatically Linked To"
  | remediatedBy => "Remediated By"
  | remediates => "Remediates"
  | testedBy => "Tested By"
  | tests => "Tests"

@[simp]
theorem inverse_inverse (r : Relation) : r.inverse.inverse = r := by
  cases r <;> rfl

/-! ### Reading -/

/-- The lower case of a character, as far as it yields letters of ASCII: the Kelvin sign folds to
the letter k. -/
def foldChar (c : Char) : Char :=
  if c = '\u212A' then 'k' else c.toLower

def fold (s : String) : String :=
  String.ofList ((s.toList.filter fun c => !Text.isBlank c && c != '_').map foldChar)

/-- Reads a relation, ignoring case, blanks and underscores. -/
def ofText? (s : String) : Option Relation :=
  match fold s with
  | "same" => some same
  | "linkedto" => some linkedTo
  | "ispartof" | "partof" => some partOf
  | "contains" => some contains
  | "related" => some related
  | "automaticallylinkedto" => some automaticallyLinkedTo
  | "remediatedby" => some remediatedBy
  | "remediates" => some remediates
  | "testedby" => some testedBy
  | "tests" => some tests
  | _ => none

end Relation

end Crosswalk
