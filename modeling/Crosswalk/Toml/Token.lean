import Crosswalk.Toml.Quoted

/-!
# Tokens of settings texts

A settings text is cut into words, quoted texts, marks, blanks and ends of lines. Comments are left
out. A word is whatever stands between blanks, marks and quotes; a date and a time with one blank
between them are one word.
-/

namespace Crosswalk.Toml

inductive Token where
  | word (cs : List Char)
  /-- A quoted text, and whether it may span lines. -/
  | quoted (text : String) (severalLines : Bool)
  | mark (c : Char)
  /-- Blanks, as many as there are. -/
  | blank (width : Nat)
  | newline
deriving DecidableEq

namespace Token

def isMark (c : Char) : Bool :=
  c ∈ ['=', ',', '[', ']', '\x7b', '\x7d']

def isBlank (c : Char) : Bool :=
  c = ' ' || c = '\t'

def isWordChar (c : Char) : Bool :=
  !isMark c && !isBlank c && !(c ∈ ['"', '\'', '#', '\n', '\r'])

/-- The characters from the end of the line on, if what stands before is a sound comment. -/
def skipComment : List Char → Option (List Char)
  | [] => some []
  | c :: cs =>
    if c = '\n' || (c = '\r' && cs.head? = some '\n') then some (c :: cs)
    else if Quoted.isPlain c then skipComment cs
    else none

/-- The tokens in front of some characters, none for a comment, and what follows. -/
def cut : List Char → Option (List Token × List Char)
  | [] => none
  | '\n' :: cs => some ([newline], cs)
  | '\r' :: '\n' :: cs => some ([newline], cs)
  | '#' :: cs => (skipComment cs).map fun rest => ([], rest)
  | c :: cs =>
    if isMark c then some ([mark c], cs)
    else if isBlank c then
      let width := ((c :: cs).takeWhile isBlank).length
      some ([blank width], (c :: cs).drop width)
    else if c = '"' || c = '\'' then
      (Quoted.read? (c :: cs)).map fun (text, severalLines, rest) =>
        ([quoted (String.ofList text) severalLines], rest)
    else
      let letters := (c :: cs).takeWhile isWordChar
      if letters = [] then none else some ([word letters], (c :: cs).drop letters.length)

/-- The tokens of some characters, if all of them can be cut. -/
def cutAll (cs : List Char) : Option (List Token) :=
  if cs = [] then some []
  else
    match cut cs with
    | none => none
    | some (tokens, rest) =>
      if rest.length < cs.length then (cutAll rest).map (tokens ++ ·) else none
termination_by cs.length

def isDateLike (cs : List Char) : Bool :=
  cs.length = 10 && cs[4]? = some '-' && cs[7]? = some '-'

def isTimeLike (cs : List Char) : Bool :=
  cs[2]? = some ':'

/-- The tokens with every date and the time after it in one word. -/
def joinMoments : List Token → List Token
  | word date :: blank 1 :: word time :: rest =>
    if isDateLike date && isTimeLike time then word (date ++ ' ' :: time) :: joinMoments rest
    else word date :: blank 1 :: joinMoments (word time :: rest)
  | token :: rest => token :: joinMoments rest
  | [] => []
termination_by tokens => tokens.length

/-- The tokens of a text. A byte order mark at its start does not count. -/
def ofText? (s : String) : Option (List Token) :=
  let cs := match s.toList with
    | '\uFEFF' :: cs => cs
    | cs => cs
  (cutAll cs).map joinMoments

end Token

end Crosswalk.Toml
