import Crosswalk.Text.Split

/-!
# Universal identities

A universal identity is a number of 128 bits. It is written as 32 hexadecimal digits in five groups,
and is read back from that text, from the bare digits, from the groups in braces and from the groups
after `urn:uuid:`; the case of the digits is free.
-/

namespace Crosswalk

structure Uuid where
  value : Nat
  value_lt : value < 1 <<< 128
deriving DecidableEq

namespace Uuid

instance : Inhabited Uuid := ⟨⟨0, by decide⟩⟩

/-- The identity whose value is the last 128 bits of a number. -/
def ofNat (n : Nat) : Uuid :=
  ⟨n % 1 <<< 128, Nat.mod_lt _ (by decide)⟩

theorem ext_value {a b : Uuid} (h : a.value = b.value) : a = b := by
  cases a
  cases b
  simp_all

/-! ### Hexadecimal digits -/

def hexDigit (n : Nat) : Char :=
  Char.ofNat (if n < 10 then 48 + n else 87 + n)

def hexValue? (c : Char) : Option Nat :=
  if '0' ≤ c ∧ c ≤ '9' then some (c.toNat - 48)
  else if 'a' ≤ c ∧ c ≤ 'f' then some (c.toNat - 87)
  else if 'A' ≤ c ∧ c ≤ 'F' then some (c.toNat - 55)
  else none

/-- The last `k` digits of a number, most significant first. -/
def hexDigits : Nat → Nat → List Char
  | 0, _ => []
  | k + 1, n => hexDigits k (n / 16) ++ [hexDigit (n % 16)]

/-- The number that the digits stand for, continuing from the number read so far. -/
def readHex : Nat → List Char → Option Nat
  | n, [] => some n
  | n, c :: cs => (hexValue? c).bind fun d => readHex (16 * n + d) cs

theorem hexValue?_hexDigit {n : Nat} (h : n < 16) : hexValue? (hexDigit n) = some n := by
  have key : ∀ m : Fin 16, hexValue? (hexDigit m.val) = some m.val := by decide
  exact key ⟨n, h⟩

@[simp]
theorem length_hexDigits (k n : Nat) : (hexDigits k n).length = k := by
  induction k generalizing n with
  | zero => rfl
  | succ k ih => simp [hexDigits, ih]

theorem readHex_append (n : Nat) (as bs : List Char) :
    readHex n (as ++ bs) = (readHex n as).bind fun m => readHex m bs := by
  induction as generalizing n with
  | nil => rfl
  | cons c as ih =>
    cases h : hexValue? c <;> simp [readHex, h, ih]

/-- Reading back `k` digits of a number that has no more gives the number. -/
theorem readHex_hexDigits {k n : Nat} (h : n < Nat.pow 16 k) :
    readHex 0 (hexDigits k n) = some n := by
  induction k generalizing n with
  | zero =>
    have hn : n = 0 := Nat.lt_one_iff.1 h
    simp [hexDigits, readHex, hn]
  | succ k ih =>
    have hq : n / 16 < Nat.pow 16 k := Nat.div_lt_of_lt_mul (Nat.mul_comm _ 16 ▸ h)
    have hr : n % 16 < 16 := Nat.mod_lt _ (by decide)
    simp [hexDigits, readHex_append, ih hq, readHex, hexValue?_hexDigit hr]
    omega

/-! ### Text -/

def hyphenate (digits : List Char) : List Char :=
  digits.take 8 ++ '-' :: (digits.drop 8).take 4 ++ '-' :: (digits.drop 12).take 4 ++
    '-' :: (digits.drop 16).take 4 ++ '-' :: digits.drop 20

/-- The 32 characters of a hyphenated form, if its hyphens are in place. -/
def unhyphenate? (cs : List Char) : Option (List Char) :=
  if cs.length = 36 ∧ [8, 13, 18, 23].all (fun i => cs[i]? == some '-') then
    some (cs.take 8 ++ (cs.drop 9).take 4 ++ (cs.drop 14).take 4 ++ (cs.drop 19).take 4 ++
      cs.drop 24)
  else none

/-- The characters of an identity: lower case, hyphenated. -/
def toChars (id : Uuid) : List Char :=
  hyphenate (hexDigits 32 id.value)

/-- The text of an identity: lower case, hyphenated. -/
def text (id : Uuid) : String :=
  String.ofList id.toChars

def ofDigits? (cs : List Char) : Option Uuid :=
  if cs.length = 32 then (readHex 0 cs).map ofNat else none

/-- The characters that hold the digits in one of the accepted forms. -/
def digitsOf? (cs : List Char) : Option (List Char) :=
  if cs.length = 32 then some cs
  else if cs.length = 36 then unhyphenate? cs
  else if cs.length = 38 ∧ cs.head? = some '\x7b' ∧ cs.getLast? = some '\x7d' then
    unhyphenate? (cs.drop 1).dropLast
  else if cs.length = 45 ∧ "urn:uuid:".toList.isPrefixOf cs then unhyphenate? (cs.drop 9)
  else none

def ofText? (s : String) : Option Uuid :=
  (digitsOf? s.toList).bind ofDigits?

end Uuid

end Crosswalk
