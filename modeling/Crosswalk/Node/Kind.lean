import Crosswalk.Text.Blank
import Crosswalk.Text.Split

/-!
# Kinds of nodes and of tools

A node is an entry of a standard, a rule of a tool or a piece of code, and a tool attacks, defends
or teaches. Both are written in one way and read in any ASCII case, blanks around them allowed.
-/

namespace Crosswalk

inductive NodeKind where
  | standard
  | tool
  | code
deriving DecidableEq, Inhabited

namespace NodeKind

/-- Every kind, in the order of column groups. -/
def all : List NodeKind :=
  [standard, tool, code]

def text : NodeKind → String
  | standard => "Standard"
  | tool => "Tool"
  | code => "Code"

/-- The position of a kind in the order of column groups. -/
def rank : NodeKind → Nat
  | standard => 0
  | tool => 1
  | code => 2

def ofText? (s : String) : Option NodeKind :=
  all.find? fun kind => Text.equalFolded kind.text (Text.trim s)

end NodeKind

inductive ToolType where
  /-- It attacks, as scanners and fuzzers do. -/
  | offensive
  /-- It protects, as firewalls and linters do. -/
  | defensive
  | training
  /-- Not known; counts as empty when a node is filled in. -/
  | unknown
deriving DecidableEq, Inhabited

namespace ToolType

def all : List ToolType :=
  [offensive, defensive, training, unknown]

def text : ToolType → String
  | offensive => "Offensive"
  | defensive => "Defensive"
  | training => "Training"
  | unknown => "Unknown"

/-- Reads a type; a blank text is the unknown type. -/
def ofText? (s : String) : Option ToolType :=
  if Text.trim s = "" then some unknown
  else all.find? fun type => Text.equalFolded type.text (Text.trim s)

end ToolType

end Crosswalk
