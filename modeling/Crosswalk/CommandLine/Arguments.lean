import Crosswalk.Text.Split

/-!
# Arguments

The arguments of a command are words and options. An option is written with two dashes and its name
or with one dash and its letter; letters may be put together. A value follows as the next argument,
or within the same one after an equals sign or right after the letter. What looks like an option is
never taken as a value, and after two dashes alone there are words only.
-/

namespace Crosswalk.CommandLine

inductive Refusal where
  | misuse
  | help
  | version
deriving DecidableEq

inductive Takes where
  /-- Nothing; the option is given at most once. -/
  | nothing
  /-- Nothing, as often as it is given. -/
  | count
  /-- Nothing; there is no command then, but an answer. -/
  | answer (refusal : Refusal)
  /-- One value; the option is given at most once. -/
  | value
  /-- One value that is not empty; the option is given at most once. -/
  | path
  /-- Values with commas between, as often as the option is given. -/
  | values
deriving DecidableEq

structure OptionRule where
  name : String
  letter : Option Char := none
  takes : Takes := .value

/-- The words and options among some arguments, in order. -/
structure Given where
  words : List String := []
  options : List (String × String) := []

namespace OptionRule

def isFlag (rule : OptionRule) : Bool :=
  match rule.takes with
  | .nothing | .count | .answer _ => true
  | .value | .path | .values => false

def isRepeatable (rule : OptionRule) : Bool :=
  rule.takes = .count || rule.takes = .values

end OptionRule

namespace Given

def addWord (given : Given) (word : String) : Given :=
  { given with words := given.words ++ [word] }

/-- The arguments with one more option, unless it has been given and may not be given again. -/
def addOption (given : Given) (rule : OptionRule) (value : String) : Except Refusal Given :=
  match rule.takes with
  | .answer refusal => .error refusal
  | takes =>
    if takes = .path && value = "" then .error .misuse
    else if !rule.isRepeatable && given.options.any fun option => option.1 = rule.name then
      .error .misuse
    else .ok { given with options := given.options ++ [(rule.name, value)] }

def value? (given : Given) (name : String) : Option String :=
  given.options.lookup name

def has (given : Given) (name : String) : Bool :=
  (given.value? name).isSome

def values (given : Given) (name : String) : List String :=
  given.options.flatMap fun option =>
    if option.1 = name then Text.split ',' option.2 else []

/-- The value of an option as it is read: none where the option is not given, and a failure where
its value cannot be read. -/
def readValue {α : Type} (given : Given) (name : String) (read : String → Option α) :
    Option (Option α) :=
  match given.value? name with
  | none => some none
  | some value => (read value).map some

end Given

/-! ### Reading -/

def isOptionLike (arg : String) : Bool :=
  match arg.toList with
  | '-' :: _ :: _ => true
  | _ => false

/-- Reads letters put together: the options, and the one among them that waits for a value. -/
def readLetters (rules : List OptionRule) (given : Given) :
    List Char → Except Refusal (Given × Option OptionRule)
  | [] => .ok (given, none)
  | c :: cs =>
    match rules.find? fun rule => rule.letter = some c with
    | none => .error .misuse
    | some rule =>
      if rule.isFlag then
        match given.addOption rule "" with
        | .error refusal => .error refusal
        | .ok given => readLetters rules given cs
      else
        match cs with
        | [] => .ok (given, some rule)
        | '=' :: value => (given.addOption rule (String.ofList value)).map (·, none)
        | value => (given.addOption rule (String.ofList value)).map (·, none)

/-- Reads a name, and the value after an equals sign: the option, and itself if it waits for a
value. -/
def readName (rules : List OptionRule) (given : Given) (cs : List Char) :
    Except Refusal (Given × Option OptionRule) :=
  let (name, value) := match Text.cutFirst '=' cs with
    | some (name, value) => (String.ofList name, some (String.ofList value))
    | none => (String.ofList cs, none)
  match rules.find? fun rule => rule.name = name with
  | none => .error .misuse
  | some rule =>
    match value with
    | some value =>
      if rule.isFlag then .error .misuse else (given.addOption rule value).map (·, none)
    | none =>
      if rule.isFlag then (given.addOption rule "").map (·, none) else .ok (given, some rule)

def readOption (rules : List OptionRule) (given : Given) (arg : String) :
    Except Refusal (Given × Option OptionRule) :=
  match arg.toList with
  | '-' :: '-' :: cs => readName rules given cs
  | cs => readLetters rules given (cs.drop 1)

/-- Reads arguments. With `toWord` this ends before the first word; what has not been read is given
back. -/
def readArguments (rules : List OptionRule) (toWord : Bool) (given : Given) :
    List String → Except Refusal (Given × List String)
  | [] => .ok (given, [])
  | arg :: rest =>
    if arg = "--" then
      if toWord then .error .misuse else .ok ({ given with words := given.words ++ rest }, [])
    else if !isOptionLike arg then
      if toWord then .ok (given, arg :: rest)
      else readArguments rules toWord (given.addWord arg) rest
    else
      match readOption rules given arg, rest with
      | .error refusal, _ => .error refusal
      | .ok (given, none), rest => readArguments rules toWord given rest
      | .ok (_, some _), [] => .error .misuse
      | .ok (given, some rule), value :: rest =>
        if isOptionLike value then .error .misuse
        else
          match given.addOption rule value with
          | .error refusal => .error refusal
          | .ok given => readArguments rules toWord given rest

end Crosswalk.CommandLine
