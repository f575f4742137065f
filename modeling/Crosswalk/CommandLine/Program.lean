import Crosswalk.Catalog.ReadOnly
import Crosswalk.Catalog.Search
import Crosswalk.CommandLine.Answer
import Crosswalk.CommandLine.Command
import Crosswalk.Exchange.Outline
import Crosswalk.Exchange.SheetOf
import Crosswalk.Location.Opening
import Crosswalk.Settings

/-!
# The program

The program reads its arguments and settings, opens the catalogue that they name, carries out the
command and keeps the catalogue. It ends with code 0, with code 1 when something fails or is not
found, with code 2 when the arguments are wrong, and with code 3 when a check finds problems.
-/

namespace Crosswalk.CommandLine

variable {m : Type → Type} [Monad m]

structure Output where
  code : Nat := 0
  shown : String := ""
  reported : String := ""

namespace Output

def ofLines (lines : List String) : Output :=
  { shown := unlines lines }

def notFound (line : String) : Output :=
  { code := 1, reported := unlines [line] }

/-- A run that fails in the course of doing something. -/
def failedWhile (doing : String) (failure : Failure) : Output :=
  { code := 1, reported := unlines (failureLines doing (failure.message :: failure.causes)) }

def failed (failure : Failure) : Output :=
  { code := 1, reported := unlines (failureLines failure.message failure.causes) }

def ofStyle (style : Style) (lines : List String) (j : Json) : Output :=
  match style with
  | .pretty => ofLines lines
  | .json => { shown := showJson j }

end Output

/-! ### Importing and exporting -/

/-- Whether the name of a file says that it holds a table. -/
def isTableName (name : String) : Bool :=
  (FilePath.extension? name).any fun ending => Text.equalFolded ending "csv"

/-- The files that some paths stand for: a directory stands for the tables in it. -/
def tableFiles (host : Host m) (paths : List String) : m (List String) := do
  let found ← paths.mapM fun path => do
    if ← host.isDirectory path then host.filesUnder isTableName path Host.greatestDepth
    else return [path]
  return found.flatten

def Layout.decode : Layout → Table → Except Failure Decoded
  | .sheet, t => Sheet.decode t
  | .outline, t => Outline.decode t

/-- The documents in the file at a path, or the reasons why there are none, each one the cause of
the one before. -/
def readDocuments (host : Host m) (layout : Layout) (path : String) :
    m (Except (List String) Decoded) := do
  let because (doing : String) (failure : Failure) : List String :=
    (doing ++ " " ++ path) :: failure.message :: failure.causes
  match ← host.readText path with
  | .error fault => return .error (because "Failed to read" (.file fault))
  | .ok text =>
    match Table.ofCsv text with
    | .error fault => return .error (because "Failed to read" (.table fault))
    | .ok table => return (layout.decode table).mapError (because "Failed to decode")

structure Progress where
  catalog : Catalog
  isReadOnly : Bool
  lines : List String := []
  /-- The number of files, rows and documents left out. -/
  skipped : Nat := 0

def Progress.importAll (p : Progress) (documents : List (Document Unit)) :
    Except (Catalog × Failure) (Catalog × ImportReport) :=
  if p.isReadOnly then
    match p.catalog.importReadOnly documents with
    | .error failure => .error (p.catalog, failure)
    | .ok report => .ok (p.catalog, report)
  else p.catalog.importDocuments documents

/-- Imports the files in order, until the catalogue refuses. -/
def importFiles (host : Host m) (colours : Bool) (layout : Layout) (p : Progress) :
    List String → m (Progress × Output)
  | [] => return (p, .ofLines (p.lines ++ [importedLine colours p.skipped]))
  | path :: paths => do
    match ← readDocuments host layout path with
    | .error reasons =>
      importFiles host colours layout
        { p with
          lines := p.lines ++ [unreadLine colours path reasons]
          skipped := p.skipped + 1 } paths
    | .ok decoded =>
      let lines := p.lines ++ rowLines colours decoded.failures
      match p.importAll decoded.documents with
      | .error (catalog, failure) =>
        return ({ p with catalog }, { Output.failedWhile ("Failed to import " ++ path) failure with
          shown := unlines lines })
      | .ok (catalog, report) =>
        importFiles host colours layout
          { p with
            catalog
            lines := lines ++ reportLines colours path report
            skipped := p.skipped + decoded.failures.length + report.failures.length } paths

def exportTo (host : Host m) (colours : Bool) (path : String) (documents : List (Document StoredId)) :
    m Output := do
  let table := Sheet.encode documents
  match ← host.write path table.toCsv.toUTF8 with
  | .error fault => return .failedWhile ("Failed to write " ++ path) (.file fault)
  | .ok () =>
    let line := s!"Exported {documents.length} documents in {table.rows.length} rows to {path}"
    return { reported := unlines [Tone.success.paint colours line] }

/-! ### Answering -/

def Asked.selector : Asked → Except Failure Selector
  | .externalId text =>
    match ExternalId.ofText? text with
    | some id => .ok (.externalId id)
    | none => .error (.externalId (Text.trim text))
  | .name text => .ok (.name text)
  | .internalId id => .ok (.internalId id)

/-- The selector for a text that is a public identifier or else a name. -/
def selectorOf (text : String) : Selector :=
  match ExternalId.ofText? text with
  | some id => .externalId id
  | none => .name text

def requirementNotFound (selector : Selector) : Output :=
  .notFound s!"Requirement {selector.text} not found"

/-- Answers a command that changes neither the catalogue nor any file. -/
def answer (colours : Bool) (c : Catalog) : Command → Output
  | .showRequirement asked wanted style =>
    match asked.selector with
    | .error failure => .failed failure
    | .ok selector =>
      match c.findRequirement? selector wanted with
      | none => requirementNotFound selector
      | some d => .ofStyle style (documentLines colours d) d.shown.toBareJson
  | .listNodes kind filter page perPage wanted style =>
    match c.findNodes kind filter page perPage wanted with
    | .error failure => .failed failure
    | .ok page => .ofStyle style (pageLines colours page) (pageJson page)
  | .findTags tags style =>
    match c.findByTags tags with
    | .error failure => .failed failure
    | .ok ds => .ofStyle style (foundLines colours ds) (.list (ds.map fun d => d.shown.toJson))
  | .search query style =>
    let ds := c.textSearch query
    .ofStyle style (foundLines colours ds) (.list (ds.map fun d => d.shown.toJson))
  | .listRoots style =>
    let ds := c.rootRequirements
    .ofStyle style (rootLines colours ds) (.list (ds.map fun d => d.shown.toBareJson))
  | .showDepth text style =>
    let selector := selectorOf text
    match c.findRequirement? selector [] with
    | none => requirementNotFound selector
    | some d =>
      let depth := c.index.depth d.entity.id
      .ofStyle style [Tone.info.paint colours d.label ++ s!": {depth}"] (depthJson d depth)
  | .compareStandards source target style =>
    let ds := c.gapAnalysis source target
    .ofStyle style (comparisonLines colours target ds) (.list (ds.map fun d => d.shown.toBareJson))
  | .resolveLink kind name selector =>
    match c.smartlink? kind name selector with
    | none => .notFound s!"No hyperlink for {kind.text}:{name}:{selector}"
    | some hyperlink => .ofLines [hyperlink]
  | .checkCatalog style =>
    let problems := c.check
    { Output.ofStyle style (checkLines colours c.store.counts problems)
        (checkJson c.store.counts problems) with
      code := if problems.isEmpty then 0 else 3 }
  | .importFiles .. | .exportTable .. => {}

/-! ### Running -/

/-- Carries out a command; the store is given back if it may have changed. -/
def carryOut (host : Host m) (colours isReadOnly : Bool) (c : Catalog) :
    Command → m (Option Store × Output)
  | .importFiles paths layout => do
    match ← tableFiles host paths with
    | [] => return (none, { code := 1, reported := unlines (failureLines "No CSV files found" []) })
    | files =>
      let (progress, output) ← importFiles host colours layout { catalog := c, isReadOnly } files
      return (if isReadOnly then none else some progress.catalog.store, output)
  | .exportTable none => return (none, { shown := (Sheet.encode c.exported).toCsv })
  | .exportTable (some path) => do return (none, ← exportTo host colours path c.exported)
  | command => return (none, answer colours c command)

/-- The settings that an invocation stands for. Settings that cannot be loaded are the default
ones. -/
def settingsOf (host : Host m) (i : Invocation) : m Settings := do
  let settings := ((Settings.load i.settings (← host.readText i.settings)).toOption).getD {}
  return { settings with database := i.database.getD settings.database }

def runInvocation (host : Host m) (colours : Bool) (i : Invocation) : m Output := do
  let settings ← settingsOf host i
  let failedToOpen (failure : Failure) : Output :=
    .failedWhile ("Failed to open catalog at " ++ settings.database) failure
  match ← host.openStore settings.database settings.writesAhead with
  | .error failure => return failedToOpen failure
  | .ok opened =>
    let c := Catalog.ofStore opened.archive.store settings.pageSize
    let (changed, output) ← carryOut host colours opened.location.isReadOnly c i.command
    match ← host.closeStore opened changed with
    | .error fault => return failedToOpen (.file fault)
    | .ok () => return output

def versionLine : String := "cre-catalog 0.1.0"

def helpLines : List String :=
  ["Cross-reference catalog mapping common security requirements to external standards, tools and code",
    "",
    "Usage: cre [OPTIONS] <COMMAND>",
    "",
    "Commands:",
    "  import     Import CSV files into the catalog",
    "  export     Export the whole catalog as a CSV table",
    "  show       Show a requirement and its links",
    "  nodes      Look up external document entries",
    "  tags       Find entities by tag",
    "  search     Free-text search",
    "  roots      List the top-level requirements",
    "  depth      Show how deep a requirement sits in the hierarchy",
    "  gap        Map the entries of one standard onto another",
    "  smartlink  Resolve a section of an external document to its hyperlink",
    "  check      Verify that the stored links and the graph index agree",
    "  help       Print this message or the help of the given subcommand(s)",
    "",
    "Options:",
    "  -v, --verbose...           Verbosity (-v, -vv, -vvv)",
    "  -c, --config <CONFIG>      Path of the configuration file [default: cre.toml]",
    "  -d, --database <DATABASE>  Path of the catalog database, overriding the configuration file",
    "  -h, --help                 Print help",
    "  -V, --version              Print version"]

/-- What a run with arguments that make no command leaves behind. -/
def Refusal.output : Refusal → Output
  | .misuse => { code := 2, reported := unlines helpLines }
  | .help => .ofLines helpLines
  | .version => .ofLines [versionLine]

def run (host : Host m) (colours : Bool) (args : List String) : m Output :=
  match Invocation.ofArguments args with
  | .error refusal => return refusal.output
  | .ok i => runInvocation host colours i

end Crosswalk.CommandLine
