import Crosswalk.Uuid

/-!
# Percent signs

In an encoded text a percent sign and two hexadecimal digits stand for an octet, and every other
character stands for its octets in UTF-8. The octet zero ends the text.
-/

namespace Crosswalk.Percent

def octet? (a b : Char) : Option UInt8 := do
  return UInt8.ofNat (16 * (← Uuid.hexValue? a) + (← Uuid.hexValue? b))

def octets : List Char → List UInt8
  | [] => []
  | '%' :: a :: b :: cs =>
    match octet? a b with
    | some 0 => []
    | some octet => octet :: octets cs
    | none => '%'.toUInt8 :: octets (a :: b :: cs)
  | c :: cs => c.toString.toUTF8.toList ++ octets cs

/-- The text that is encoded; where the octets are no text, it stays encoded. -/
def decode (encoded : List Char) : String :=
  (String.fromUTF8? ⟨(octets encoded).toArray⟩).getD (String.ofList encoded)

end Crosswalk.Percent
