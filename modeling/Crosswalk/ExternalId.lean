import Crosswalk.Text.Blank
import Crosswalk.Text.Digit

/-!
# External identifiers

The public identifier of a requirement: three decimal digits, a hyphen and three more, such as
`764-507`. Digits of every script count. A text is trimmed before it is read.
-/

namespace Crosswalk

/-- Whether the characters are three digits, a hyphen and three digits. -/
def isExternalId : List Char → Bool
  | [a, b, c, '-', d, e, f] => [a, b, c, d, e, f].all Text.isDigit
  | _ => false

structure ExternalId where
  text : String
  wellFormed : isExternalId text.toList = true
deriving DecidableEq

namespace ExternalId

def isValid (s : String) : Bool :=
  isExternalId (Text.trim s).toList

/-- Reads an external identifier, blanks around it allowed. -/
def ofText? (s : String) : Option ExternalId :=
  if h : isExternalId (Text.trim s).toList = true then some ⟨Text.trim s, h⟩ else none

theorem text_of_ofText? {s : String} {id : ExternalId} (h : ofText? s = some id) :
    id.text = Text.trim s := by
  unfold ofText? at h
  split at h
  · cases h
    rfl
  · cases h

/-- An external identifier is never the empty text. -/
theorem text_ne_empty (id : ExternalId) : id.text ≠ "" := by
  intro h
  have := id.wellFormed
  simp [h, isExternalId] at this

/-- The text of an identifier, empty where there is none. -/
def textOf (id : Option ExternalId) : String :=
  match id with
  | some id => id.text
  | none => ""

theorem textOf_injective {a b : Option ExternalId} (h : textOf a = textOf b) : a = b := by
  cases a with
  | none =>
    cases b with
    | none => rfl
    | some id => exact absurd (Eq.symm h) id.text_ne_empty
  | some id =>
    cases b with
    | none => exact absurd h id.text_ne_empty
    | some id' =>
      obtain ⟨text, wellFormed⟩ := id
      obtain ⟨text', wellFormed'⟩ := id'
      have htext : text = text' := h
      subst htext
      rfl

end ExternalId

end Crosswalk
