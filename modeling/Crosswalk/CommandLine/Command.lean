import Crosswalk.Catalog.Lookup
import Crosswalk.CommandLine.Arguments
import Crosswalk.Text.Digit

/-!
# Commands

What can be done from a command line, and how a command is written: its name, its words and its
options. Some options are common to all commands and may also stand before the name.
-/

namespace Crosswalk.CommandLine

inductive Style where
  | pretty
  | json
deriving DecidableEq

inductive Layout where
  /-- A requirement, its peers and its nodes in every row. -/
  | sheet
  | outline
deriving DecidableEq

/-- How a requirement is asked for, as it is given. -/
inductive Asked where
  | externalId (text : String)
  | name (name : String)
  | internalId (id : Uuid)
deriving DecidableEq

inductive Command where
  | importFiles (paths : List String) (layout : Layout)
  | exportTable (path : Option String)
  | showRequirement (asked : Asked) (wanted : List String) (style : Style)
  | listNodes (kind : NodeKind) (filter : Store.NodeFilter) (page perPage : Option Nat)
      (wanted : List String) (style : Style)
  | findTags (tags : List String) (style : Style)
  | search (query : String) (style : Style)
  | listRoots (style : Style)
  | showDepth (requirement : String) (style : Style)
  | compareStandards (source target : String) (style : Style)
  | resolveLink (kind : NodeKind) (name selector : String)
  | checkCatalog (style : Style)

/-- A command with the settings file and the catalogue that it is meant for. -/
structure Invocation where
  settings : String
  database : Option String
  command : Command

/-! ### Options -/

def helpRule : OptionRule :=
  ⟨"help", some 'h', .answer .help⟩

def commonRules : List OptionRule :=
  [⟨"verbose", some 'v', .count⟩, ⟨"config", some 'c', .path⟩, ⟨"database", some 'd', .path⟩,
    helpRule]

/-- The options that stand before the name of a command. -/
def leadingRules : List OptionRule :=
  ⟨"version", some 'V', .answer .version⟩ :: commonRules

def styleRule : OptionRule :=
  { name := "output" }

/-- The option that names the peers whose links are shown. -/
def wantedRule : OptionRule :=
  { name := "include-only", takes := .values }

/-- The options of its own that a command has, by its name. -/
def ownRules? : String → Option (List OptionRule)
  | "import" => some [{ name := "format" }]
  | "export" => some [⟨"output", some 'o', .path⟩]
  | "show" => some [{ name := "id" }, { name := "name" }, { name := "uuid" }, wantedRule, styleRule]
  | "nodes" =>
    some [{ name := "section" }, { name := "subsection" }, { name := "section-id" },
      { name := "version" }, { name := "hyperlink" }, { name := "description" },
      { name := "partial", takes := .nothing }, { name := "page" }, { name := "per-page" },
      wantedRule, styleRule]
  | "tags" | "search" | "roots" | "depth" | "gap" | "check" => some [styleRule]
  | "smartlink" => some []
  | _ => none

/-! ### Values -/

def Style.ofText? : String → Option Style
  | "pretty" => some .pretty
  | "json" => some .json
  | _ => none

def Layout.ofText? : String → Option Layout
  | "export" => some .sheet
  | "hierarchy" => some .outline
  | _ => none

def Given.style? (given : Given) : Option Style :=
  (given.readValue "output" Style.ofText?).map fun style => style.getD .pretty

/-- The requirement that is asked for; exactly one of three options says which. -/
def Given.asked? (given : Given) : Option Asked :=
  match given.value? "id", given.value? "name", given.value? "uuid" with
  | some id, none, none => some (.externalId id)
  | none, some name, none => some (.name name)
  | none, none, some id => (Uuid.ofText? id).map .internalId
  | _, _, _ => none

/-- The filter for nodes that the name of a document and the options make. -/
def Given.nodeFilter (given : Given) (name : String) : Store.NodeFilter where
  name := some name
  sectionTitle := given.value? "section"
  subsection := given.value? "subsection"
  sectionId := given.value? "section-id"
  version := given.value? "version"
  hyperlink := given.value? "hyperlink"
  description := given.value? "description"
  loose := given.has "partial"

/-! ### Commands -/

namespace Command

/-- The command with a name, by its words and options. -/
def ofGiven? (name : String) (given : Given) : Option Command := do
  match name, given.words with
  | "import", path :: paths =>
    if "" ∈ path :: paths then none
    else
      return .importFiles (path :: paths)
        ((← given.readValue "format" Layout.ofText?).getD .sheet)
  | "export", [] => return .exportTable (given.value? "output")
  | "show", [] =>
    return .showRequirement (← given.asked?) (given.values "include-only") (← given.style?)
  | "nodes", [kind, name] =>
    return .listNodes (← NodeKind.ofText? kind) (given.nodeFilter name)
      (← given.readValue "page" Text.parseCount?) (← given.readValue "per-page" Text.parseCount?)
      (given.values "include-only") (← given.style?)
  | "tags", tag :: tags =>
    return .findTags ((tag :: tags).flatMap fun tag => Text.split ',' tag) (← given.style?)
  | "search", word :: words => return .search (" ".intercalate (word :: words)) (← given.style?)
  | "roots", [] => return .listRoots (← given.style?)
  | "depth", [requirement] => return .showDepth requirement (← given.style?)
  | "gap", [source, target] => return .compareStandards source target (← given.style?)
  | "smartlink", [kind, name, selector] =>
    return .resolveLink (← NodeKind.ofText? kind) name selector
  | "check", [] => return .checkCatalog (← given.style?)
  | _, _ => none

end Command

namespace Invocation

/-- The settings file that is read unless another one is given. -/
def defaultSettings : String := "cre.toml"

/-- What is asked for after the word `help`: any known command, or nothing. -/
def helpOn (words : List String) : Refusal :=
  match words with
  | [] => .help
  | name :: _ => if name = "help" || (ownRules? name).isSome then .help else .misuse

/-- The invocation that some arguments make. A common option after the name of the command
outweighs the same one before it. -/
def ofArguments (args : List String) : Except Refusal Invocation := do
  match ← readArguments leadingRules true {} args with
  | (_, []) => .error .misuse
  | (leading, name :: rest) =>
    if name = "help" then .error (helpOn rest)
    else
      match ownRules? name with
      | none => .error .misuse
      | some rules =>
        let (given, _) ← readArguments (rules ++ commonRules) false {} rest
        match Command.ofGiven? name given with
        | none => .error .misuse
        | some command =>
          let common (name : String) := (given.value? name).or (leading.value? name)
          return {
            settings := (common "config").getD defaultSettings
            database := common "database"
            command }

end Invocation

end Crosswalk.CommandLine
