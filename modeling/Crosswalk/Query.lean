import Crosswalk.ExternalId
import Crosswalk.Node.Kind

/-!
# Free-text queries

A query names a requirement by its public identifier or by its name, names nodes by their
coordinates, or is any other text. A word for what is sought, in any ASCII case, and a colon or a
blank stand before a name and before coordinates; before a public identifier they may be left out.
-/

namespace Crosswalk

inductive Query where
  | externalId (id : ExternalId)
  | requirementName (name : String)
  /-- Nodes of a kind by up to three coordinates in any order, and perhaps by hyperlink. -/
  | nodes (kind : NodeKind) (tokens : List String) (hyperlink : Option String)
  | text (text : String)
deriving DecidableEq

namespace Query

/-- What stands after a word in any ASCII case and a colon or a blank. Nothing counts as found when
nothing or a line feed follows. -/
def afterWord? (word : String) (cs : List Char) : Option (List Char) :=
  if (cs.take word.length).map Char.toLower = word.toList then
    match cs.drop word.length with
    | sep :: rest =>
      if (sep = ':' || sep = ' ') && !rest.isEmpty && !rest.contains '\n' then some rest else none
    | [] => none
  else none

/-- The public identifier that a query consists of, with or without the word before it. -/
def externalId? (cs : List Char) : Option ExternalId :=
  let bare := (afterWord? "cre" cs).getD cs
  if isExternalId bare then ExternalId.ofText? (String.ofList bare) else none

def isHyperlink (token : String) : Bool :=
  "http://".toList.isPrefixOf token.toList || "https://".toList.isPrefixOf token.toList

/-- The separator of coordinates: a colon where there is one that is not part of an address. -/
def separator (cs : List Char) : Char :=
  if cs.contains ':' && !Text.occursIn "://".toList cs then ':' else ' '

/-- The coordinates in a text: trimmed, without the empty ones. -/
def coordinates (cs : List Char) : List String :=
  ((Text.split (separator cs) (String.ofList cs)).map Text.trim).filter (· != "")

/-- The query for nodes of a kind by the coordinates in a text: the first address is the hyperlink,
and the first three of the other coordinates are used. -/
def ofCoordinates (kind : NodeKind) (cs : List Char) : Query :=
  let tokens := coordinates cs
  nodes kind ((tokens.filter fun t => !isHyperlink t).take 3) (tokens.find? isHyperlink)

def ofText (s : String) : Query :=
  let cs := (Text.trim s).toList
  match externalId? cs with
  | some id => externalId id
  | none =>
    match afterWord? "cre" cs with
    | some rest => requirementName (Text.trim (String.ofList rest))
    | none =>
      match NodeKind.all.findSome? fun kind =>
          (afterWord? (Text.lower kind.text) cs).map fun rest => (kind, rest) with
      | some (kind, rest) => ofCoordinates kind rest
      | none => text (Text.trim s)

end Query

end Crosswalk
