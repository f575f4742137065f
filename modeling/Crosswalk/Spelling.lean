import Crosswalk.StoredId

/-!
# Spellings of identities

A text may spell an identity in more than one way: in upper case, without hyphens or in braces. The
one spelling in which identities are written is the plain one. What compares texts tells two
spellings of one identity apart; what reads them does not.
-/

namespace Crosswalk

inductive Spelling where
  /-- Lower case, hyphenated. -/
  | plain
  | other (text : String)
deriving DecidableEq, Inhabited

/-- An identity in the spelling of a text. -/
structure SpeltId where
  id : StoredId
  spelling : Spelling
deriving DecidableEq, Inhabited

namespace SpeltId

/-- An identity as it is written. -/
def plain (id : StoredId) : SpeltId :=
  ⟨id, .plain⟩

def text (s : SpeltId) : String :=
  match s.spelling with
  | .plain => s.id.text
  | .other text => text

def ofText? (text : String) : Option SpeltId :=
  (StoredId.ofText? text).map fun id => ⟨id, if text = id.text then .plain else .other text⟩

theorem plain_inj {a b : StoredId} : plain a = plain b ↔ a = b := by
  simp [plain]

/-- A text that is read is the text of what is read. -/
theorem text_of_ofText? {text : String} {s : SpeltId} (h : ofText? text = some s) :
    s.text = text := by
  obtain ⟨id, -, rfl⟩ := Option.map_eq_some_iff.1 h
  unfold SpeltId.text
  dsimp only
  split <;> rename_i heq <;> split at heq <;> cases heq
  · exact Eq.symm ‹_›
  · rfl

end SpeltId

end Crosswalk
