/-!
# Paths of files

A path is a text whose parts are separated by slashes. It leads from the working directory unless
it begins with a slash. Empty parts count for nothing, and neither does a part that is a single
dot, except at the beginning. Two dots lead outwards; a plain path has none but at its beginning.
-/

namespace Crosswalk.FilePath

def isAbsolute (path : String) : Bool :=
  path.toList.head? == some '/'

/-- The characters of a path without slashes and single dots at its end; `reversed` holds the
characters from the last one on. -/
def dropEnd (reversed : List Char) : List Char :=
  match reversed with
  | '/' :: c :: cs => dropEnd (c :: cs)
  | '.' :: '/' :: cs => dropEnd ('/' :: cs)
  | cs => cs
termination_by reversed.length

/-- The path that is left when the last part is taken away, if there is one. -/
def parent? (path : String) : Option String :=
  match dropEnd path.toList.reverse with
  | [] | ['/'] => none
  | reversed => some (String.ofList (dropEnd (reversed.dropWhile (· != '/'))).reverse)

/-- A path as it reads when it is taken from inside a directory. -/
def join (directory path : String) : String :=
  if isAbsolute path || directory = "" then path
  else if directory.toList.getLast? == some '/' then directory ++ path
  else directory ++ "/" ++ path

/-- The path and the directories around it, from the inside outwards. -/
def outwards (path : String) : List String :=
  go path.length path
where
  /-- The first directories, at most the given number, without one whose path is empty. -/
  go : Nat → String → List String
    | 0, _ => []
    | n + 1, path =>
      if path = "" then []
      else path :: ((parent? path).map (go n)).getD []

def parts (path : String) : List String :=
  ((path.toList.splitOn '/').map String.ofList).filter fun part => part != "" && part != "."

/-- The parts walked so far, the last one first, with one more: two dots take the last one away. -/
def addPart (absolute : Bool) (reversed : List String) (part : String) : List String :=
  if part = ".." then
    match reversed with
    | [] => if absolute then [] else [part]
    | last :: rest => if last = ".." then part :: reversed else rest
  else part :: reversed

/-- The parts of a path of which none is taken away by two dots. -/
def plainParts (path : String) : List String :=
  ((parts path).foldl (addPart (isAbsolute path)) []).reverse

/-- The path that has only these parts; a single dot if there are none. -/
def plain (path : String) : String :=
  let start := if isAbsolute path then "/" else ""
  match plainParts path with
  | [] => start ++ "."
  | parts => start ++ "/".intercalate parts

/-- Whether the last part of a path is a single dot. -/
def endsInDot (path : String) : Bool :=
  ((path.toList.splitOn '/').reverse.dropWhile List.isEmpty).head? == some ['.']

def namesDirectory (path : String) : Bool :=
  path.toList.getLast? == some '/' || endsInDot path

/-- The greatest number of bytes in a part of a path. -/
def greatestPart : Nat := 255

def greatestPath : Nat := 4095

/-- The part of a file name after its last dot, which must not be its first character. -/
def extension? (name : String) : Option String :=
  match name.toList.reverse.span (· != '.') with
  | (_, []) | (_, [_]) => none
  | (reversed, _) => some (String.ofList reversed.reverse)

end Crosswalk.FilePath
