import Crosswalk.Uuid

/-!
# Identities of what is stored

What is stored has a number as its identity. Numbers do not run out, so that a fresh one can be drawn
for every serial number. Outside the store an identity is known by the universal identity that holds
the last 128 bits of its number; every universal identity belongs to an identity in this way.

A fresh identity has the layout of version 4 of universal identities: 4 and 2 stand in the four bits
and the two bits that tell the version, and the other bits hold the serial number.
-/

namespace Crosswalk

/-- The identity of an entity or a link that is stored. -/
structure StoredId where
  number : Nat
deriving DecidableEq, Inhabited

namespace StoredId

/-! ### Outside the store -/

/-- The universal identity by which a stored one is known. -/
def uuid (id : StoredId) : Uuid :=
  .ofNat id.number

def ofUuid (id : Uuid) : StoredId :=
  ⟨id.value⟩

/-- The text of an identity: lower case, hyphenated. -/
def text (id : StoredId) : String :=
  id.uuid.text

def ofText? (s : String) : Option StoredId :=
  (Uuid.ofText? s).map ofUuid

@[simp]
theorem uuid_ofUuid (id : Uuid) : (ofUuid id).uuid = id :=
  Uuid.ext_value (Nat.mod_eq_of_lt id.value_lt)

/-! ### Fresh identities -/

/-- The number that version 4 makes of three fields, the last two of 12 and 62 bits. -/
def pack (high mid low : Nat) : Nat :=
  high <<< 80 + 4 <<< 76 + mid <<< 64 + 2 <<< 62 + low

/-- The identity with a serial number in the bits that are free. -/
def ofSerial (n : Nat) : StoredId :=
  ⟨pack (n >>> 74) (n >>> 62 % 1 <<< 12) (n % 1 <<< 62)⟩

theorem pack_inj {h₁ m₁ l₁ h₂ m₂ l₂ : Nat} (hm₁ : m₁ < 1 <<< 12) (hl₁ : l₁ < 1 <<< 62)
    (hm₂ : m₂ < 1 <<< 12) (hl₂ : l₂ < 1 <<< 62) (h : pack h₁ m₁ l₁ = pack h₂ m₂ l₂) :
    h₁ = h₂ ∧ m₁ = m₂ ∧ l₁ = l₂ := by
  simp only [pack] at h
  omega

theorem ofSerial_inj {m n : Nat} (h : ofSerial m = ofSerial n) : m = n := by
  obtain ⟨h₁, h₂, h₃⟩ := pack_inj (Nat.mod_lt _ (by decide)) (Nat.mod_lt _ (by decide))
    (Nat.mod_lt _ (by decide)) (Nat.mod_lt _ (by decide)) (congrArg StoredId.number h)
  simp only [Nat.shiftRight_eq_div_pow, Nat.one_shiftLeft] at h₁ h₂ h₃
  omega

end StoredId

end Crosswalk
