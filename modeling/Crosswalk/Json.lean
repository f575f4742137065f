import Crosswalk.Uuid

/-!
# JSON values and their texts

A value keeps the fields of an object in the order in which they are written. There are two texts:
the compact one without blanks, and the pretty one, in which every item of a list and every field
of an object stands on a line of its own, indented by two blanks a level.
-/

namespace Crosswalk

inductive Json where
  | null
  | bool (value : Bool)
  /-- The number of which the last digits, `places` of them, stand after the point. -/
  | number (digits : Int) (places : Nat)
  | text (value : String)
  | list (items : List Json)
  | object (fields : List (String × Json))

namespace Json

instance : Inhabited Json := ⟨null⟩

/-! ### Reading values -/

/-- The value of the first field with this name. -/
def field? (name : String) (fields : List (String × Json)) : Option Json :=
  fields.lookup name

/-- The value, if it is a text. -/
def text? : Json → Option String
  | text s => some s
  | _ => none

/-- The texts of a list, if it is a list of texts. -/
def texts? : Json → Option (List String)
  | list items => items.mapM text?
  | _ => none

/-- The one of several choices that a value names: by its text or, where numbers count, by its place
among them. -/
def choice? {α : Type} (choices : List α) (name : α → String) (byNumber : Bool) : Json → Option α
  | text s => choices.find? fun a => name a = s
  | number (.ofNat n) 0 => if byNumber then choices[n]? else none
  | _ => none

def whole (n : Nat) : Json :=
  number n 0

def ofTexts (texts : List String) : Json :=
  list (texts.map text)

/-! ### Texts -/

def escape (c : Char) : List Char :=
  if c = '"' then ['\\', '"']
  else if c = '\\' then ['\\', '\\']
  else if c = '\n' then ['\\', 'n']
  else if c = '\r' then ['\\', 'r']
  else if c = '\t' then ['\\', 't']
  else if c = '\x08' then ['\\', 'b']
  else if c = '\x0c' then ['\\', 'f']
  else if c.toNat < 32 then '\\' :: 'u' :: Uuid.hexDigits 4 c.toNat
  else [c]

def quote (s : String) : List Char :=
  '"' :: s.toList.flatMap escape ++ ['"']

/-- A number with its sign, and with a point if it has places after that. -/
def decimal (n : Int) (places : Nat) : List Char :=
  let digits := (toString n.natAbs).toList
  let padded := List.replicate (places + 1 - digits.length) '0' ++ digits
  let (whole, fraction) := padded.splitAt (padded.length - places)
  (if n < 0 then ['-'] else []) ++ whole ++ if places = 0 then [] else '.' :: fraction

mutual

def compactChars : Json → List Char
  | null => "null".toList
  | bool true => "true".toList
  | bool false => "false".toList
  | number n places => decimal n places
  | text s => quote s
  | list items => '[' :: (compactItems items ++ [']'])
  | object fields => '\x7b' :: (compactFields fields ++ ['\x7d'])
termination_by structural j => j

/-- The items of a list, with commas between. -/
def compactItems : List Json → List Char
  | [] => []
  | [j] => compactChars j
  | j :: k :: js => compactChars j ++ ',' :: compactItems (k :: js)
termination_by structural js => js

/-- The fields of an object, with commas between. -/
def compactFields : List (String × Json) → List Char
  | [] => []
  | [(name, j)] => quote name ++ ':' :: compactChars j
  | (name, j) :: f :: fs => quote name ++ ':' :: (compactChars j ++ ',' :: compactFields (f :: fs))
termination_by structural fs => fs

end

def compact (j : Json) : String :=
  String.ofList (compactChars j)

def newline (level : Nat) : List Char :=
  '\n' :: List.replicate (2 * level) ' '

mutual

def prettyChars (level : Nat) : Json → List Char
  | list (j :: js) => '[' :: (prettyItems level (j :: js) ++ newline level ++ [']'])
  | object (f :: fs) => '\x7b' :: (prettyFields level (f :: fs) ++ newline level ++ ['\x7d'])
  | list [] => "[]".toList
  | object [] => ['\x7b', '\x7d']
  | null => "null".toList
  | bool true => "true".toList
  | bool false => "false".toList
  | number n places => decimal n places
  | text s => quote s
termination_by structural j => j

/-- The items of a list, each on its own line. -/
def prettyItems (level : Nat) : List Json → List Char
  | [] => []
  | [j] => newline (level + 1) ++ prettyChars (level + 1) j
  | j :: k :: js =>
    newline (level + 1) ++ prettyChars (level + 1) j ++ ',' :: prettyItems level (k :: js)
termination_by structural js => js

/-- The fields of an object, each on its own line. -/
def prettyFields (level : Nat) : List (String × Json) → List Char
  | [] => []
  | [(name, j)] => newline (level + 1) ++ quote name ++ ':' :: ' ' :: prettyChars (level + 1) j
  | (name, j) :: f :: fs =>
    newline (level + 1) ++ quote name ++ ':' :: ' ' :: (prettyChars (level + 1) j ++
      ',' :: prettyFields level (f :: fs))
termination_by structural fs => fs

end

def pretty (j : Json) : String :=
  String.ofList (prettyChars 0 j)

end Json

end Crosswalk
