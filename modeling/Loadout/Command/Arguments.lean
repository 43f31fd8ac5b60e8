/-
**What the command line asks for.**

There are two commands, to resolve a request and to check it, and both take the path of the request
as their operand. `Command.ofArguments?` reads the arguments; every flag but the one for verbosity
may stand only once.
-/

import Loadout.Command.Flag
import Loadout.Config

namespace Loadout

/-- What the flags of a resolution say. -/
structure ResolveOptions where
  /-- The settings file, instead of the nearest one. -/
  configFile : Option String
  timeoutMs : Option Nat
  inclusionBias : Option Int
  maxErrors : Option Nat
  /-- Whether conflicts are left as they are found. -/
  noMinimize : Bool
  /-- Whether the outcome is written in JSON. -/
  json : Bool
deriving DecidableEq, Repr, Inhabited

/-- What is asked for. -/
inductive Command
  | resolve (request : String) (options : ResolveOptions)
  | check (request : String) (strict : Bool)
  | version
  | help
deriving DecidableEq, Repr, Inhabited

namespace ResolveOptions

/-- What is said without flags. -/
def none : ResolveOptions :=
  ⟨.none, .none, .none, .none, false, false⟩

/-- The settings with those that the flags override. -/
def override (options : ResolveOptions) (config : Config) : Config where
  inclusionBias := options.inclusionBias.getD config.inclusionBias
  timeoutMs := options.timeoutMs <|> config.timeoutMs
  minimizeCores := config.minimizeCores && !options.noMinimize
  maxReportedErrors := options.maxErrors <|> config.maxReportedErrors

end ResolveOptions

namespace Command

/-- What the arguments of a command have said so far. -/
structure Draft where
  request : Option String
  /-- The flags that may not stand again. -/
  given : List Flag
  options : ResolveOptions
  strict : Bool
  help : Bool
deriving Inhabited

namespace Draft

/-- What is said without arguments. -/
def empty : Draft :=
  ⟨none, [], .none, false, false⟩

/-- Notes the value of a flag, given how it is read and where it belongs. -/
def note {α : Type} (flag : Flag) (read : String → Option α)
    (set : ResolveOptions → α → ResolveOptions) (value : String) (draft : Draft) :
    Except ArgumentError Draft :=
  match read value with
  | some value => .ok { draft with options := set draft.options value }
  | none => .error (.invalidValue flag value)

/-- Notes a flag. -/
def takeFlag (draft : Draft) (flag : Flag) (value : String) : Except ArgumentError Draft :=
  match flag with
  | .verbose => .ok draft
  | .version => .ok draft
  | .help => .ok { draft with help := true }
  | .config =>
    draft.note flag (fun value => if value.isEmpty then none else some value)
      (fun options path => { options with configFile := some path }) value
  | .timeoutMs =>
    draft.note flag (fun value => readNatural wordLimit value.toList)
      (fun options limit => { options with timeoutMs := some limit }) value
  | .inclusionBias =>
    draft.note flag (fun value => readInteger weightMin weightMax value.toList)
      (fun options bias => { options with inclusionBias := some bias }) value
  | .maxErrors =>
    draft.note flag (fun value => readNatural wordLimit value.toList)
      (fun options count => { options with maxErrors := some count }) value
  | .noMinimize => .ok { draft with options := { draft.options with noMinimize := true } }
  | .json => .ok { draft with options := { draft.options with json := true } }
  | .strict => .ok { draft with strict := true }

/-- Notes an argument. -/
def take (draft : Draft) : Argument → Except ArgumentError Draft
  | .flag flag value =>
    if draft.given.contains flag then .error (.repeatedFlag flag)
    else do
      let noted ← draft.takeFlag flag (value.getD "")
      if flag == .verbose then return noted else return { noted with given := flag :: noted.given }
  | .operand text =>
    if draft.request.isSome then .error (.unwantedOperand text)
    else if text.isEmpty then .error .emptyRequest
    else .ok { draft with request := some text }

/-- Reads the arguments of a command, which has some flags. -/
def ofArguments? (flags : List Flag) (arguments : List String) : Except ArgumentError Draft := do
  (← scan flags arguments).foldlM take empty

/-- The command that a draft comes to, given what is done with its request. -/
def finish (command : String → Command) (draft : Draft) : Except ArgumentError Command :=
  if draft.help then .ok .help
  else
    match draft.request with
    | some request => .ok (command request)
    | none => .error .missingRequest

end Draft

/-- Reads the arguments behind the name of a command. -/
def ofName? (name : String) (arguments : List String) : Except ArgumentError Command := do
  match name with
  | "resolve" =>
    let draft ← Draft.ofArguments?
      [.verbose, .help, .config, .timeoutMs, .inclusionBias, .maxErrors, .noMinimize, .json]
      arguments
    draft.finish fun request => .resolve request draft.options
  | "check" =>
    let draft ← Draft.ofArguments? [.verbose, .help, .strict] arguments
    draft.finish fun request => .check request draft.strict
  | "help" => return .help
  | _ => throw (.unknownCommand name)

/-- Reads arguments in front of the name of a command; `bare` says whether none came before. -/
def ofArgumentsFrom? (bare : Bool) : List String → Except ArgumentError Command
  | [] => .error (if bare then .nothing else .missingCommand)
  | argument :: rest =>
    if argument == "--" then
      match rest with
      | [] => .error (if bare then .nothing else .missingCommand)
      | text :: _ => .error (.unwantedOperand text)
    else if !looksLikeFlag argument then ofName? argument rest
    else do
      let read ← readFlags [.verbose, .version, .help] argument
      match read.getLast? with
      | some (.version, _) => return .version
      | some (.help, _) => return .help
      | _ => ofArgumentsFrom? false rest

/-- Reads arguments. -/
def ofArguments? (arguments : List String) : Except ArgumentError Command :=
  ofArgumentsFrom? true arguments

end Command

end Loadout
