import Crosswalk.Toml.Scalar
import Crosswalk.Toml.Token

/-!
# Reading settings texts

A line opens a table by its header or assigns a value to a key. A key is a path of names with dots
between them, all on one line. Values in brackets and braces may span lines. Neither a path nor
brackets and braces inside each other go deeper than a fixed limit.
-/

namespace Crosswalk.Toml

open Token

/-! ### Keys -/

inductive KeyPart where
  | name (text : String)
  | dot
deriving DecidableEq

/-- Whether a character may stand in a name without quotes. -/
def isNameChar (c : Char) : Bool :=
  ('a' ≤ c && c ≤ 'z') || ('A' ≤ c && c ≤ 'Z') || ('0' ≤ c && c ≤ '9') || c = '_' || c = '-'

/-- The names in a word and the dots between them. -/
def partsOfWord (cs : List Char) : Option (List KeyPart) :=
  let names := cs.splitOn '.'
  if names.all fun name => name.all isNameChar then
    some ((names.map fun name => if name = [] then [] else [.name (String.ofList name)])
      |>.intersperse [.dot] |>.flatten)
  else none

def partsOfKey : List Token → Option (List KeyPart)
  | [] => some []
  | .word cs :: rest => do return (← partsOfWord cs) ++ (← partsOfKey rest)
  | .quoted text false :: rest => (partsOfKey rest).map (.name text :: ·)
  | .blank _ :: rest => partsOfKey rest
  | _ => none

/-- The greatest number of names in a path, and of brackets and braces inside each other. -/
def maxDepth : Nat := 80

/-- The path of a key whose names and dots alternate. -/
def pathOfParts : List KeyPart → Option (List String)
  | [.name text] => some [text]
  | .name text :: .dot :: rest => (pathOfParts rest).map (text :: ·)
  | _ => none

/-- The path that some tokens are, unless it is too long. -/
def pathOfTokens (tokens : List Token) : Option (List String) :=
  ((partsOfKey tokens).bind pathOfParts).filter fun path => path.length ≤ maxDepth

/-- The tokens in front of a mark and those after it. -/
def cutAt (ending : Char) (tokens : List Token) : Option (List Token × List Token) :=
  let key := tokens.takeWhile (· ≠ .mark ending)
  match tokens.drop key.length with
  | [] => none
  | _ :: rest => some (key, rest)

/-- The path in front of a mark, and the tokens after the mark. -/
def readPath (ending : Char) (tokens : List Token) : Option (List String × List Token) :=
  (cutAt ending tokens).bind fun (key, rest) => (pathOfTokens key).map (·, rest)

/-- The tokens without blanks and ends of lines at the end. -/
def dropLines (tokens : List Token) : List Token :=
  (tokens.reverse.dropWhile fun t => t matches .blank _ || t = .newline).reverse

/-- The path in front of an equals sign, which may stand on a line below, and the tokens after
it. -/
def readFieldPath (tokens : List Token) : Option (List String × List Token) :=
  (cutAt '=' tokens).bind fun (key, rest) => (pathOfTokens (dropLines key)).map (·, rest)

/-! ### Values -/

def skipBlanks (tokens : List Token) : List Token :=
  tokens.dropWhile fun t => t matches .blank _

/-- The tokens without blanks and ends of lines in front. -/
def skipLines (tokens : List Token) : List Token :=
  tokens.dropWhile fun t => t matches .blank _ || t = .newline

theorem length_skipLines_le (tokens : List Token) : (skipLines tokens).length ≤ tokens.length :=
  (List.dropWhile_sublist _).length_le

mutual

/-- The value in front, and the tokens after it; `depth` bounds how many brackets and braces may
stand inside each other. -/
def readValue (depth : Nat) (tokens : List Token) : Option (Value × List Token) :=
  match depth, tokens with
  | _, .word cs :: rest => (Scalar.ofWord? cs).map (·, rest)
  | _, .quoted text _ :: rest => some (.text text, rest)
  | depth + 1, .mark '[' :: rest => readItems depth [] rest
  | depth + 1, .mark '\x7b' :: rest => readFields depth [] rest
  | _, _ => none
termination_by 2 * tokens.length

/-- The list whose first items, in reverse, are given. -/
def readItems (depth : Nat) (items : List Value) (tokens : List Token) :
    Option (Value × List Token) :=
  have := length_skipLines_le tokens
  match skipLines tokens with
  | .mark ']' :: rest => some (.list items.reverse, rest)
  | _ =>
    match readValue depth (skipLines tokens) with
    | none => none
    | some (item, after) =>
      match skipLines after with
      | .mark ']' :: rest => some (.list (item :: items).reverse, rest)
      | .mark ',' :: rest =>
        if rest.length < tokens.length then readItems depth (item :: items) rest else none
      | _ => none
termination_by 2 * tokens.length + 1

/-- The table in braces whose first entries are given. -/
def readFields (depth : Nat) (entries : Entries) (tokens : List Token) :
    Option (Value × List Token) :=
  match skipLines tokens with
  | .mark '\x7d' :: rest => some (.table .braces entries, rest)
  | first =>
    match readFieldPath first with
    | none => none
    | some (path, after) =>
      have := length_skipLines_le after
      if after.length < tokens.length then
        match readValue depth (skipLines after) with
        | none => none
        | some (value, after) =>
          match entries.assign .braces path value, skipLines after with
          | some entries, .mark '\x7d' :: rest => some (.table .braces entries, rest)
          | some entries, .mark ',' :: rest =>
            if rest.length < tokens.length then readFields depth entries rest else none
          | _, _ => none
      else none
termination_by 2 * tokens.length + 1

end

/-! ### Lines -/

/-- The statement in front, and the tokens after it. -/
def readStatement : List Token → Option (Statement × List Token)
  | .mark '[' :: .mark '[' :: rest =>
    match readPath ']' rest with
    | some (path, .mark ']' :: rest) => some (.appends path, rest)
    | _ => none
  | .mark '[' :: rest => (readPath ']' rest).map fun (path, rest) => (.opens path, rest)
  | tokens =>
    match readPath '=' tokens with
    | none => none
    | some (path, rest) =>
      (readValue maxDepth (skipBlanks rest)).map fun (value, rest) => (.assigns path value, rest)

/-- The statements, each on a line of its own. -/
def readStatements (tokens : List Token) : Option (List Statement) :=
  have := length_skipLines_le tokens
  match skipLines tokens with
  | [] => some []
  | first =>
    match readStatement first with
    | none => none
    | some (statement, after) =>
      match skipBlanks after with
      | [] => some [statement]
      | .newline :: rest =>
        if rest.length < tokens.length then (readStatements rest).map (statement :: ·) else none
      | _ => none
termination_by tokens.length

/-- The entries of a settings text, if it is sound. -/
def read (s : String) : Option Entries :=
  ((Token.ofText? s).bind readStatements).bind (Entries.run [] [])

end Crosswalk.Toml
