import PipelineExpansion.Number.Decimal
import PipelineExpansion.Text.Pieces

/-!
# Arguments

The arguments of a call are the name of a command, the path of a document, and settings in any order. A
setting is written in full, `--name value` or `--name=value`; some have a letter, `-p value`, and letters
may be run together. Behind `--` there are no settings.
-/

namespace PipelineExpansion.CommandLine

/-- What is to be done with a document. -/
inductive Verb where
  | expand
  | validate
  | legacy
deriving DecidableEq, Repr

/-- The verb of a name. -/
def Verb.ofName? : String → Option Verb
  | "expand" => some expand
  | "validate" => some validate
  | "legacy" => some legacy
  | _ => none

/-- The settings. -/
inductive Setting where
  | repoRoot
  | repository
  | param
  | format
  | list
  | branch
  | changed
  | maxFiles
  | verbose
deriving DecidableEq, Repr

namespace Setting

/-- All settings. -/
def all : List Setting := [repoRoot, repository, param, format, list, branch, changed, maxFiles, verbose]

/-- The name of a setting. -/
def name : Setting → String
  | repoRoot => "repo-root"
  | repository => "repository"
  | param => "param"
  | format => "format"
  | list => "list"
  | branch => "branch"
  | changed => "changed"
  | maxFiles => "max-files"
  | verbose => "verbose"

/-- The letter of a setting. -/
def letter? : Setting → Option Char
  | param => some 'p'
  | verbose => some 'v'
  | _ => none

/-- Whether a setting has a value. -/
def hasValue : Setting → Bool
  | list | verbose => false
  | _ => true

/-- Whether a setting may be given more than once. -/
def repeats : Setting → Bool
  | repository | param | changed => true
  | _ => false

/-- The verbs that a setting is for. -/
def verbs : Setting → List Verb
  | repoRoot | param | verbose => [.expand, .validate, .legacy]
  | repository => [.expand, .validate]
  | format => [.expand]
  | list | branch | changed => [.validate]
  | maxFiles => [.legacy]

end Setting

/-- What is wrong with arguments. -/
inductive Misuse where
  | noCommand
  | unknownCommand (name : String)
  | noDocument
  | unexpected (argument : String)
  | noValue (s : Setting)
  | needlessValue (s : Setting)
  | badValue (s : Setting) (value : String)
  | twice (s : Setting)
  | needs (s required : Setting)
deriving DecidableEq, Repr

/-- The wording of a misuse. -/
def Misuse.message : Misuse → String
  | noCommand => "a command is needed: expand, validate or legacy"
  | unknownCommand name => "there is no command '" ++ name ++ "'"
  | noDocument => "the path of a document is needed"
  | unexpected argument => "unexpected argument '" ++ argument ++ "'"
  | noValue s => "a value is needed for '--" ++ s.name ++ "'"
  | needlessValue s => "'--" ++ s.name ++ "' has no value"
  | badValue s value => "invalid value '" ++ value ++ "' for '--" ++ s.name ++ "'"
  | twice s => "'--" ++ s.name ++ "' cannot be used more than once"
  | needs s required => "'--" ++ s.name ++ "' needs '--" ++ required.name ++ "'"

/-! ### Reading -/

/-- What was read from arguments: those that are no settings, and the settings in their order. -/
structure Given where
  words : List String := []
  settings : List (Setting × String) := []
deriving DecidableEq, Repr

namespace Given

/-- The verb that was given. -/
def verb? (g : Given) : Option Verb := g.words.head?.bind Verb.ofName?

/-- Whether a setting was given. -/
def has (g : Given) (s : Setting) : Bool := g.settings.any (·.1 = s)

/-- The values that were given for a setting. -/
def values (g : Given) (s : Setting) : List String :=
  g.settings.filterMap fun (t, value) => if t = s then some value else none

/-- Adds a word: first the name of a command, then the path of a document. -/
def word (g : Given) (w : String) : Except Misuse Given :=
  match g.words with
  | [] => if (Verb.ofName? w).isSome then .ok { g with words := [w] } else .error (.unknownCommand w)
  | [command] => .ok { g with words := [command, w] }
  | _ => .error (.unexpected w)

/-- Adds a setting. -/
def add (g : Given) (s : Setting) (value : String) : Except Misuse Given :=
  if g.has s && !s.repeats then .error (.twice s)
  else .ok { g with settings := g.settings ++ [(s, value)] }

/-- The setting that `found` holds for, if it is one for the verb that was given; before a verb there is
only `verbose`. -/
def setting? (g : Given) (found : Setting → Bool) : Option Setting :=
  Setting.all.find? fun s =>
    found s && match g.verb? with
      | some v => s.verbs.contains v
      | none => s = .verbose

/-- The settings of letters that are run together, the last one with the value behind it. -/
def letters? (g : Given) : List Char → Option (List (Setting × Option String))
  | [] => some []
  | c :: rest => do
    let s ← g.setting? (·.letter? = some c)
    if s.hasValue then
      return [(s, match rest with
        | [] => none
        | '=' :: value => some (String.ofList value)
        | value => some (String.ofList value))]
    else return (s, none) :: (← letters? g rest)

/-- The settings that an argument stands for, each with the value that is attached to it. -/
def settings? (g : Given) (argument : String) : Except Misuse (List (Setting × Option String)) :=
  let found :=
    match argument.toList with
    | '-' :: '-' :: long =>
      let (name, value) :=
        match Text.cut? ['='] long with
        | some (name, value) => (String.ofList name, some (String.ofList value))
        | none => (String.ofList long, none)
      (g.setting? (·.name = name)).map fun s => [(s, value)]
    | _ :: letters => g.letters? letters
    | [] => none
  match found with
  | some settings => .ok settings
  | none => .error (.unexpected argument)

/-- Whether an argument stands for settings. -/
def standsForSettings (argument : String) : Bool :=
  match argument.toList with
  | '-' :: _ :: _ => true
  | _ => false

/-- Adds settings that need nothing of the arguments behind them. -/
def addAll (g : Given) : List (Setting × Option String) → Except Misuse Given
  | [] => .ok g
  | (s, value) :: rest => do
    match s.hasValue, value with
    | true, none => throw (.noValue s)
    | false, some _ => throw (.needlessValue s)
    | _, value => addAll (← g.add s (value.getD "")) rest

/-- Whether the last of some settings takes the next argument as its value. -/
def lacksValue : List (Setting × Option String) → Bool
  | [] => false
  | [(s, value)] => s.hasValue && value.isNone
  | _ :: rest => lacksValue rest

/-- Settings with a value for the last of them. -/
def withValue (value : String) : List (Setting × Option String) → List (Setting × Option String)
  | [] => []
  | [(s, _)] => [(s, some value)]
  | first :: rest => first :: withValue value rest

/-- Reads arguments behind those that were read. -/
def read (g : Given) : List String → Except Misuse Given
  | [] => .ok g
  | argument :: rest => do
    if argument = "--" then rest.foldlM word g
    else if !standsForSettings argument then read (← g.word argument) rest
    else
      let settings ← g.settings? argument
      match lacksValue settings, rest with
      | true, value :: more =>
        if standsForSettings value then g.addAll settings
        else read (← g.addAll (withValue value settings)) more
      | _, rest => read (← g.addAll settings) rest

end Given

/-! ### Commands -/

/-- How a document is written. -/
inductive Format where
  | yaml
  | json
deriving DecidableEq, Repr

/-- A document and where it comes from. Repositories are written `alias=path`, and parameters
`name=value`. -/
structure Subject where
  path : String
  root : Option String := none
  repositories : List String := []
  parameters : List String := []
  verbose : Bool := false
deriving DecidableEq, Repr

/-- A command. -/
inductive Command where
  | expand (s : Subject) (f : Format)
  | validate (s : Subject) (list : Bool) (branch : Option String) (changed : List String)
  | legacy (s : Subject) (maxFiles : Nat)
deriving DecidableEq, Repr

/-- The document of a command. -/
def Command.subject : Command → Subject
  | expand s _ | validate s .. | legacy s _ => s

/-- A setting that is a path, which is not empty. -/
def Given.path? (g : Given) (s : Setting) : Except Misuse (Option String) :=
  match (g.values s).head? with
  | some "" => .error (.badValue s "")
  | value => .ok value

/-- The document that was given. -/
def Given.subject? (g : Given) : Except Misuse Subject := do
  match g.words with
  | [_, path] =>
    if path.isEmpty then throw .noDocument
    return {
      path
      root := ← g.path? .repoRoot
      repositories := g.values .repository
      parameters := g.values .param
      verbose := g.has .verbose }
  | [] => throw .noCommand
  | _ => throw .noDocument

/-- The format that was given. -/
def Given.format? (g : Given) : Except Misuse Format :=
  match (g.values .format).head? with
  | none | some "yaml" => .ok .yaml
  | some "json" => .ok .json
  | some other => .error (.badValue .format other)

/-- The number of files that was given: decimal digits, with a plus sign or without, below 2^64. -/
def Given.maxFiles? (g : Given) : Except Misuse Nat :=
  match (g.values .maxFiles).head? with
  | none => .ok 0
  | some value =>
    let digits := ((Text.stripPrefix? "+" value).getD value).toList
    let n := Binary64.digitsValue digits
    if !digits.isEmpty && digits.all Char.isDigit && n < Nat.pow 2 64 then .ok n
    else .error (.badValue .maxFiles value)

/-- The command that arguments stand for. -/
def Command.ofArguments? (arguments : List String) : Except Misuse Command := do
  let g ← Given.read {} arguments
  let s ← g.subject?
  match g.verb? with
  | some .expand => return .expand s (← g.format?)
  | some .validate =>
    if g.has .changed && !g.has .branch then throw (.needs .changed .branch)
    return .validate s (g.has .list) (g.values .branch).head? (g.values .changed)
  | some .legacy => return .legacy s (← g.maxFiles?)
  | none => throw .noCommand

end PipelineExpansion.CommandLine
