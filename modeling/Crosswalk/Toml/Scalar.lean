import Crosswalk.Text.Digit
import Crosswalk.Toml
import Crosswalk.Uuid

/-!
# Words in settings

A value that is neither quoted nor in brackets is one word: a truth value, a whole number, a real
number, or a date, a time or both. Single underscores may stand between the digits of a number.
Whole numbers fit into 64 bits, with a sign or without, and real numbers are at most those of
double precision.
-/

namespace Crosswalk.Toml.Scalar

/-- Whether a word has a minus in front, and the word without its sign. -/
def cutSign : List Char → Bool × List Char
  | '-' :: cs => (true, cs)
  | '+' :: cs => (false, cs)
  | cs => (false, cs)

/-- The digits of a number without the underscores between them. -/
def digits? (isDigit : Char → Bool) (cs : List Char) : Option (List Char) :=
  let groups := cs.splitOn '_'
  if groups.all fun group => !group.isEmpty && group.all isDigit then some groups.flatten else none

/-- The digits of a number in base ten that has no needless zero in front. -/
def decimal? (cs : List Char) : Option (List Char) :=
  match digits? Text.isAsciiDigit cs with
  | some ('0' :: _ :: _) => none
  | digits => digits

/-! ### Whole numbers -/

/-- The value of a digit in a base up to sixteen. -/
def digitValue? (base : Nat) (c : Char) : Option Nat :=
  (Uuid.hexValue? c).filter (· < base)

def inBase? (base : Nat) (cs : List Char) : Option Int :=
  (digits? (fun c => (digitValue? base c).isSome) cs).map fun digits =>
    digits.foldl (fun n c => base * n + ((digitValue? base c).getD 0 : Nat)) (0 : Nat)

/-- A whole number, of any size. -/
def anyInteger? : List Char → Option Int
  | '0' :: 'x' :: cs => inBase? 16 cs
  | '0' :: 'o' :: cs => inBase? 8 cs
  | '0' :: 'b' :: cs => inBase? 2 cs
  | cs =>
    let (negative, cs) := cutSign cs
    (decimal? cs).map fun digits =>
      let value : Int := Text.decimalValue digits
      if negative then -value else value

def integer? (cs : List Char) : Option Int :=
  (anyInteger? cs).filter fun n => -(UInt64.size / 2 : Nat) ≤ n && n < UInt64.size

/-! ### Real numbers -/

/-- Whether a mantissa times a power of ten lies within double precision; from half a unit above
the greatest number on it does not. -/
def isFinite (mantissa : Nat) (exponent : Int) : Bool :=
  let bound : Nat := 1 <<< 1024 - 1 <<< 970
  let places := (Nat.toDigits 10 mantissa).length + exponent
  if mantissa = 0 || places < 309 then true
  else if places > 309 then false
  else if 0 ≤ exponent then mantissa * Nat.pow 10 exponent.toNat < bound
  else mantissa < bound * Nat.pow 10 (-exponent).toNat

/-- The exponent of a real number, which may have needless zeros. -/
def exponent? (cs : List Char) : Option Int :=
  let (negative, cs) := cutSign cs
  (digits? Text.isAsciiDigit cs).map fun digits =>
    let value : Int := Text.decimalValue digits
    if negative then -value else value

/-- Whether a word is a real number: a whole part, then a fraction or an exponent or both; or
infinity, or no number. -/
def isReal (cs : List Char) : Bool :=
  let (_, cs) := cutSign cs
  if cs = "inf".toList || cs = "nan".toList then true
  else
    let isMark (c : Char) : Bool := c = 'e' || c = 'E'
    let mantissa := cs.takeWhile fun c => !isMark c
    let exponent := cs.drop mantissa.length
    let whole := mantissa.takeWhile (· ≠ '.')
    let fraction := mantissa.drop whole.length
    let fractionDigits := if fraction = [] then some [] else digits? Text.isAsciiDigit (fraction.drop 1)
    let exponentValue := if exponent = [] then some 0 else exponent? (exponent.drop 1)
    match decimal? whole, fractionDigits, exponentValue with
    | some whole, some fraction, some e =>
      (fraction ≠ [] || exponent ≠ []) &&
        isFinite (Text.decimalValue (whole ++ fraction)) (e - fraction.length)
    | _, _, _ => false

/-! ### Dates and times -/

def twoDigits? (a b : Char) : Option Nat :=
  if Text.isAsciiDigit a && Text.isAsciiDigit b then some (Text.decimalValue [a, b]) else none

def daysIn (year month : Nat) : Nat :=
  if month = 2 then
    if year % 4 = 0 && (year % 100 ≠ 0 || year % 400 = 0) then 29 else 28
  else if month ∈ [4, 6, 9, 11] then 30
  else 31

def isDate : List Char → Bool
  | [y₁, y₂, y₃, y₄, '-', m₁, m₂, '-', d₁, d₂] =>
    match twoDigits? y₁ y₂, twoDigits? y₃ y₄, twoDigits? m₁ m₂, twoDigits? d₁ d₂ with
    | some century, some year, some month, some day =>
      1 ≤ month && month ≤ 12 && 1 ≤ day && day ≤ daysIn (100 * century + year) month
    | _, _, _, _ => false
  | _ => false

/-- Whether the characters are the distance from universal time, or nothing where none is wanted. -/
def isOffset (cs : List Char) : Bool :=
  match cs with
  | [] | ['Z'] | ['z'] => true
  | [sign, h₁, h₂, ':', m₁, m₂] =>
    (sign = '+' || sign = '-') && (twoDigits? h₁ h₂).any (· < 24) && (twoDigits? m₁ m₂).any (· < 60)
  | _ => false

/-- The characters after a second and its fraction, if there is one. A second may be a leap
second. -/
def cutSecond? : List Char → Option (List Char)
  | ':' :: s₁ :: s₂ :: cs =>
    if (twoDigits? s₁ s₂).any (· ≤ 60) then
      match cs with
      | '.' :: c :: rest =>
        if Text.isAsciiDigit c then some (rest.dropWhile Text.isAsciiDigit) else none
      | cs => some cs
    else none
  | cs => some cs

/-- The characters after the time in front, of which the second may be left out. -/
def cutTime? : List Char → Option (List Char)
  | h₁ :: h₂ :: ':' :: m₁ :: m₂ :: cs =>
    if (twoDigits? h₁ h₂).any (· < 24) && (twoDigits? m₁ m₂).any (· < 60) then cutSecond? cs
    else none
  | _ => none

/-- Whether a word is a date, a time or both; only both together have a distance from universal
time. -/
def isMoment (cs : List Char) : Bool :=
  if isDate (cs.take 10) then
    match cs.drop 10 with
    | [] => true
    | sep :: rest => (sep = 'T' || sep = 't' || sep = ' ') && (cutTime? rest).any isOffset
  else cutTime? cs == some []

/-! ### Words -/

def ofWord? (cs : List Char) : Option Value :=
  if cs = "true".toList then some (.bool true)
  else if cs = "false".toList then some (.bool false)
  else
    match integer? cs with
    | some n => some (.integer n)
    | none => if isReal cs then some .real else if isMoment cs then some .moment else none

end Crosswalk.Toml.Scalar
