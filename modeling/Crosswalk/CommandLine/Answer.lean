import Crosswalk.Catalog.Export
import Crosswalk.Catalog.Import
import Crosswalk.Catalog.Lookup
import Crosswalk.CommandLine.Paint
import Crosswalk.Document.Json

/-!
# Answers as they are shown

What a command answers is shown as lines for a reader or as JSON. Lines may be painted.
-/

namespace Crosswalk.CommandLine

def unlines (lines : List String) : String :=
  String.join (lines.map (· ++ "\n"))

def showJson (j : Json) : String :=
  j.pretty ++ "\n"

def padRight (width : Nat) (s : String) : String :=
  s ++ String.ofList (List.replicate (width - s.length) ' ')

/-! ### Documents -/

/-- The line of the tags, if there are any. -/
def tagLines (colours : Bool) (tags : TagSet) : List String :=
  if tags.isEmpty then []
  else ["  " ++ Tone.dim.paint colours "tags:" ++ " " ++ ", ".intercalate tags.toList]

def linkLine (colours : Bool) (link : Link StoredId) : String :=
  "  " ++ Tone.dim.paint colours (padRight 24 link.relation.text) ++ " " ++ link.peer.label

/-- The line below the label: the description of a requirement or the hyperlink of a node. -/
def detailLines (colours : Bool) : Entity StoredId → List String
  | .requirement r => if r.description = "" then [] else ["  " ++ r.description]
  | .node n => if n.hyperlink = "" then [] else ["  " ++ Tone.dim.paint colours n.hyperlink]

def documentLines (colours : Bool) (d : Document StoredId) : List String :=
  Tone.info.paint colours d.label :: detailLines colours d.entity ++
    tagLines colours d.entity.tags ++ d.links.map (linkLine colours)

def noMatches (colours : Bool) : String :=
  Tone.dim.paint colours "No matches"

def foundLines (colours : Bool) (ds : List (Document StoredId)) : List String :=
  (if ds.isEmpty then [noMatches colours] else []) ++ ds.flatMap (documentLines colours)

def pageLines (colours : Bool) (page : Page) : List String :=
  foundLines colours page.items ++
    if page.totalPages > 1 then
      [Tone.dim.paint colours s!"Page {page.page} of {page.totalPages}"]
    else []

def pageJson (page : Page) : Json :=
  .object [("total_pages", .whole page.totalPages), ("page", .whole page.page),
    ("items", .list (page.items.map fun d => d.shown.toBareJson))]

/-- The lines of the requirements at the top of the hierarchy. -/
def rootLines (colours : Bool) (ds : List (Document StoredId)) : List String :=
  ds.flatMap (documentLines colours) ++
    [Tone.dim.paint colours s!"{ds.length} root requirements"]

def depthJson (requirement : Document StoredId) (depth : Nat) : Json :=
  .object [("depth", .whole depth), ("requirement", .text requirement.label)]

/-- The lines of a comparison: under every entry of one standard those of the other one. -/
def comparisonLines (colours : Bool) (target : String) (ds : List (Document StoredId)) :
    List String :=
  ds.flatMap fun d =>
    let reached := d.links.filter fun link => link.peer.name = target
    Tone.info.paint colours d.label ::
      if reached.isEmpty then ["  " ++ Tone.warning.paint colours s!"no {target} entries"]
      else reached.map fun link => "  " ++ link.peer.label

/-! ### Checks -/

def listedProblems : Nat := 20

/-- The lines of the counts and problems of a catalogue. -/
def checkLines (colours : Bool) (counts : Nat × Nat × Nat) (problems : List Problem) :
    List String :=
  let (requirements, nodes, links) := counts
  let count (name : String) (n : Nat) : String := padRight 14 name ++ s!" {n}"
  [count "Requirements" requirements, count "Nodes" nodes, count "Links" links, ""] ++
    if problems.isEmpty then ["Problems: " ++ Tone.success.paint colours "0" ++ " ✅"]
    else
      ["Problems: " ++ Tone.failure.paint colours (toString problems.length) ++ " \u26a0\ufe0f"] ++
        (problems.take listedProblems).map (fun problem => "  - " ++ problem.message) ++
        if problems.length > listedProblems then
          [s!"  - ... and {problems.length - listedProblems} more"]
        else []

/-- The object of the counts and problems of a catalogue. -/
def checkJson (counts : Nat × Nat × Nat) (problems : List Problem) : Json :=
  let (requirements, nodes, links) := counts
  .object [("requirements", .whole requirements), ("nodes", .whole nodes),
    ("links", .whole links), ("problems", .ofTexts (problems.map Problem.message))]

/-! ### Imports -/

def skippedLine (colours : Bool) (what : String) : String :=
  "  " ++ Tone.failure.paint colours "✗" ++ " " ++ what

/-- The line about a file that cannot be read, for the given reasons. -/
def unreadLine (colours : Bool) (path : String) (reasons : List String) : String :=
  Tone.info.paint colours (path ++ ":") ++ " " ++ Tone.failure.paint colours "✗" ++ " " ++
    ": ".intercalate reasons

/-- The lines about the rows of a table that were left out. -/
def rowLines (colours : Bool) (failures : List (Nat × Failure)) : List String :=
  failures.map fun (row, failure) => skippedLine colours s!"row {row}: {failure.message}"

def reportLines (colours : Bool) (path : String) (report : ImportReport) : List String :=
  (Tone.info.paint colours (path ++ ":") ++ " " ++ report.text) ::
    report.failures.map fun (label, failure) =>
      skippedLine colours (label ++ ": " ++ failure.message)

/-- The line at the end of an import in which some things were left out. -/
def importedLine (colours : Bool) (skipped : Nat) : String :=
  if skipped = 0 then Tone.success.paint colours "Import complete ✅"
  else
    Tone.warning.paint colours
      s!"Import complete, {skipped} files, rows or documents skipped"

/-! ### Failures -/

/-- The lines of a text, all but the first one set in. -/
def indent (first next : String) (s : String) : String :=
  ("\n" ++ next).intercalate ((s.toList.splitOn '\n').map String.ofList) |> (first ++ ·)

/-- The causes of a failure, numbered if there are several. -/
def causeLines : List String → List String
  | [] => []
  | [cause] => ["", "Caused by:", indent "    " "    " cause]
  | causes =>
    ["", "Caused by:"] ++ causes.zipIdx.map fun (cause, i) =>
      let number := toString i
      indent (String.ofList (List.replicate (5 - number.length) ' ') ++ number ++ ": ") "       "
        cause

def failureLines (message : String) (causes : List String) : List String :=
  ("Error: " ++ message) :: causeLines causes

end Crosswalk.CommandLine
