import Crosswalk.Uuid

/-!
# Quoted texts in settings

A text stands between two quotes or between two apostrophes, in one line or, with three of them on
either side, in several. Between quotes a backslash starts an escape; between apostrophes every
character stands for itself. When a text is written, the plainest way that can hold it is taken.
-/

namespace Crosswalk.Toml.Quoted

/-! ### Characters -/

/-- Whether a character may stand in a text or a comment as it is. -/
def isPlain (c : Char) : Bool :=
  c = '\t' || (32 ≤ c.toNat && c.toNat ≠ 127)

def charOfHex? (digits : List Char) : Option Char :=
  ((Uuid.readHex 0 digits).filter Nat.isValidChar).map Char.ofNat

/-- The character that a letter after a backslash stands for. -/
def escaped? (c : Char) : Option Char :=
  if c = 'b' then some '\x08'
  else if c = 't' then some '\t'
  else if c = 'n' then some '\n'
  else if c = 'f' then some '\x0c'
  else if c = 'r' then some '\r'
  else if c = 'e' then some '\x1b'
  else if c = '"' then some '"'
  else if c = '\\' then some '\\'
  else none

/-! ### Reading

Each reader takes the characters after the opening and gives the text and what follows it. -/

def andThen (c : Char) (read : Option (List Char × List Char)) : Option (List Char × List Char) :=
  read.map fun (text, rest) => (c :: text, rest)

def andThen? (c : Option Char) (read : Option (List Char × List Char)) :
    Option (List Char × List Char) :=
  c.bind fun c => andThen c read

def readLiteral : List Char → Option (List Char × List Char)
  | [] => none
  | c :: cs =>
    if c = '\'' then some ([], cs)
    else if isPlain c then andThen c (readLiteral cs)
    else none

def readBasic : List Char → Option (List Char × List Char)
  | [] => none
  | '\\' :: 'x' :: a :: b :: cs => andThen? (charOfHex? [a, b]) (readBasic cs)
  | '\\' :: 'u' :: a :: b :: c :: d :: cs => andThen? (charOfHex? [a, b, c, d]) (readBasic cs)
  | '\\' :: 'U' :: a :: b :: c :: d :: e :: f :: g :: h :: cs =>
    andThen? (charOfHex? [a, b, c, d, e, f, g, h]) (readBasic cs)
  | '\\' :: c :: cs => andThen? (escaped? c) (readBasic cs)
  | c :: cs =>
    if c = '"' then some ([], cs)
    else if isPlain c then andThen c (readBasic cs)
    else none

/-- Ends a text of several lines at the characters in front, if three marks or more stand there; up
to two before the last three of them belong to the text. -/
def close? (mark : Char) (cs : List Char) : Option (List Char × List Char) :=
  let marks := min (cs.takeWhile (· = mark)).length 5
  if 3 ≤ marks then some (List.replicate (marks - 3) mark, cs.drop marks) else none

def readLiteralLines : List Char → Option (List Char × List Char)
  | [] => none
  | c :: cs =>
    match close? '\'' (c :: cs) with
    | some closed => some closed
    | none =>
      if isPlain c || c = '\n' || (c = '\r' && cs.head? = some '\n') then
        andThen c (readLiteralLines cs)
      else none

/-- What stands before the place that is read in a text of several lines. -/
inductive Gap where
  | no
  /-- A backslash and perhaps blanks: a line must end here. -/
  | opened
  /-- A backslash and the end of its line: blanks and ends of lines are left out. -/
  | crossed
deriving DecidableEq

def readBasicLines (gap : Gap) : List Char → Option (List Char × List Char)
  | [] => none
  | '\\' :: 'x' :: a :: b :: cs =>
    if gap = .opened then none else andThen? (charOfHex? [a, b]) (readBasicLines .no cs)
  | '\\' :: 'u' :: a :: b :: c :: d :: cs =>
    if gap = .opened then none
    else andThen? (charOfHex? [a, b, c, d]) (readBasicLines .no cs)
  | '\\' :: 'U' :: a :: b :: c :: d :: e :: f :: g :: h :: cs =>
    if gap = .opened then none
    else andThen? (charOfHex? [a, b, c, d, e, f, g, h]) (readBasicLines .no cs)
  | '\\' :: c :: cs =>
    if gap = .opened then none
    else if c = '\n' then readBasicLines .crossed cs
    else if c = ' ' || c = '\t' || c = '\r' then readBasicLines .opened (c :: cs)
    else andThen? (escaped? c) (readBasicLines .no cs)
  | c :: cs =>
    if gap ≠ .no && (c = ' ' || c = '\t') then readBasicLines gap cs
    else if gap ≠ .no && c = '\n' then readBasicLines .crossed cs
    else if gap ≠ .no && c = '\r' && cs.head? = some '\n' then readBasicLines gap cs
    else if gap = .opened then none
    else
      match close? '"' (c :: cs) with
      | some closed => some closed
      | none =>
        if isPlain c || c = '\n' || (c = '\r' && cs.head? = some '\n') then
          andThen c (readBasicLines .no cs)
        else none
termination_by structural cs => cs

/-- The characters without one end of a line in front. -/
def dropNewline : List Char → List Char
  | '\n' :: cs => cs
  | '\r' :: '\n' :: cs => cs
  | cs => cs

/-- A quoted text in front: the text, whether it may span lines, and what follows. -/
def read? : List Char → Option (List Char × Bool × List Char)
  | '"' :: '"' :: '"' :: cs =>
    (readBasicLines .no (dropNewline cs)).map fun (text, rest) => (text, true, rest)
  | '\'' :: '\'' :: '\'' :: cs =>
    (readLiteralLines (dropNewline cs)).map fun (text, rest) => (text, true, rest)
  | '"' :: cs => (readBasic cs).map fun (text, rest) => (text, false, rest)
  | '\'' :: cs => (readLiteral cs).map fun (text, rest) => (text, false, rest)
  | _ => none

/-! ### Writing -/

/-- Whether a character can be written by an escape only. -/
def needsCode (c : Char) : Bool :=
  !isPlain c && c ≠ '\n'

def longestRun (mark : Char) (cs : List Char) : Nat :=
  (cs.foldl (fun (longest, run) c =>
    if c = mark then (max longest (run + 1), run + 1) else (longest, 0)) (0, 0)).1

/-- How a character other than a quote is written between quotes. -/
def escape (severalLines : Bool) (c : Char) : List Char :=
  if c = '\\' then ['\\', '\\']
  else if c = '\n' then if severalLines then [c] else ['\\', 'n']
  else if c = '\t' then ['\\', 't']
  else if c = '\r' then ['\\', 'r']
  else if c = '\x08' then ['\\', 'b']
  else if c = '\x0c' then ['\\', 'f']
  else if needsCode c then '\\' :: 'u' :: (Uuid.hexDigits 4 c.toNat).map Char.toUpper
  else [c]

/-- The characters of a text as they are written between quotes: in several lines two quotes may
stand side by side, otherwise none; `run` counts those that stand in front. -/
def escapeAll (severalLines : Bool) (run : Nat) : List Char → List Char
  | [] => []
  | c :: cs =>
    if c ≠ '"' then escape severalLines c ++ escapeAll severalLines 0 cs
    else if severalLines && run < 2 then c :: escapeAll severalLines (run + 1) cs
    else '\\' :: c :: escapeAll severalLines 0 cs

/-- The characters of a text with its opening and its ending. -/
def writeChars (cs : List Char) : List Char :=
  let coded := cs.any needsCode
  let lines := cs.contains '\n'
  let opening := if lines then ['\n'] else []
  let quotes := ['"', '"', '"']
  let apostrophes := ['\'', '\'', '\'']
  if !coded && !lines && !cs.contains '\\' && !cs.contains '"' then
    '"' :: escapeAll false 0 cs ++ ['"']
  else if !coded && !lines && !cs.contains '\'' then '\'' :: cs ++ ['\'']
  else if !coded && !cs.contains '\\' && longestRun '"' cs ≤ 2 then
    quotes ++ opening ++ escapeAll true 0 cs ++ quotes
  else if !coded && longestRun '\'' cs ≤ 2 then apostrophes ++ opening ++ cs ++ apostrophes
  else if lines then quotes ++ opening ++ escapeAll true 0 cs ++ quotes
  else '"' :: escapeAll false 0 cs ++ ['"']

def write (s : String) : String :=
  String.ofList (writeChars s.toList)

end Crosswalk.Toml.Quoted
