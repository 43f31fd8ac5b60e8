/-
**Flags on the command line.**

A flag has a long name, and some have a letter as well. A flag that takes a value finds it behind
an equals sign, behind its letter, or in the next argument; letters without values may be joined.
`scan` cuts arguments into flags and operands. Two dashes end the flags, and a single dash is an
operand.
-/

namespace Loadout

namespace Command

/-- A flag. -/
inductive Flag
  | verbose
  | version
  | help
  | config
  | timeoutMs
  | inclusionBias
  | maxErrors
  | noMinimize
  | json
  | strict
deriving DecidableEq, Repr, Inhabited

namespace Flag

/-- The long name of a flag. -/
def name : Flag → String
  | .verbose => "verbose"
  | .version => "version"
  | .help => "help"
  | .config => "config"
  | .timeoutMs => "timeout-ms"
  | .inclusionBias => "inclusion-bias"
  | .maxErrors => "max-errors"
  | .noMinimize => "no-minimize"
  | .json => "json"
  | .strict => "strict"

/-- The letter of a flag. -/
def letter? : Flag → Option Char
  | .verbose => some 'v'
  | .version => some 'V'
  | .help => some 'h'
  | .config => some 'c'
  | _ => none

/-- Whether a flag takes a value. -/
def takesValue : Flag → Bool
  | .config => true
  | .timeoutMs => true
  | .inclusionBias => true
  | .maxErrors => true
  | _ => false

/-- Whether a value in the next argument may start with a dash. -/
def takesDashes : Flag → Bool
  | .inclusionBias => true
  | _ => false

/-- Whether nothing behind the flag matters. -/
def isFinal : Flag → Bool
  | .version => true
  | .help => true
  | _ => false

end Flag

/-- What is wrong with arguments. -/
inductive ArgumentError
  /-- There are none. -/
  | nothing
  | missingCommand
  | unknownCommand (name : String)
  | unknownFlag (text : String)
  | missingValue (flag : Flag)
  | unwantedValue (flag : Flag)
  | invalidValue (flag : Flag) (value : String)
  | repeatedFlag (flag : Flag)
  | missingRequest
  | emptyRequest
  | unwantedOperand (text : String)
deriving DecidableEq, Repr, Inhabited

/-- An argument that has been recognized. -/
inductive Argument
  | flag (flag : Flag) (value : Option String)
  | operand (text : String)
deriving DecidableEq, Repr, Inhabited

/-- Whether an argument is read as flags. -/
def looksLikeFlag (argument : String) : Bool :=
  match argument.toList with
  | '-' :: _ :: _ => true
  | _ => false

/-- Reads a flag by its long name, with a value behind an equals sign if there is one. -/
def readLong (flags : List Flag) (text : List Char) :
    Except ArgumentError (Flag × Option String) :=
  let name := String.ofList (text.takeWhile (· != '='))
  let value := match text.dropWhile (· != '=') with
    | [] => none
    | _ :: value => some (String.ofList value)
  match flags.find? fun flag => flag.name == name with
  | none => .error (.unknownFlag name)
  | some flag =>
    if value.isSome && !flag.takesValue then .error (.unwantedValue flag) else .ok (flag, value)

/-- Reads flags by their letters. What follows the letter of a flag that takes a value is the
value. -/
def readLetters (flags : List Flag) :
    List Char → Except ArgumentError (List (Flag × Option String))
  | [] => .ok []
  | letter :: rest =>
    match flags.find? fun flag => flag.letter? == some letter with
    | none => .error (.unknownFlag (String.ofList [letter]))
    | some flag =>
      if flag.isFinal then .ok [(flag, none)]
      else if flag.takesValue then
        match rest with
        | [] => .ok [(flag, none)]
        | '=' :: value => .ok [(flag, some (String.ofList value))]
        | value => .ok [(flag, some (String.ofList value))]
      else do return (flag, none) :: (← readLetters flags rest)

/-- Reads the flags of one argument that looks like flags. -/
def readFlags (flags : List Flag) (argument : String) :
    Except ArgumentError (List (Flag × Option String)) :=
  match argument.toList with
  | '-' :: '-' :: text => do return [← readLong flags text]
  | _ :: letters => readLetters flags letters
  | [] => .ok []

/-- Cuts arguments into flags and operands; what follows a final flag is left out. -/
def scan (flags : List Flag) : List String → Except ArgumentError (List Argument)
  | [] => .ok []
  | argument :: rest =>
    if argument == "--" then .ok (rest.map .operand)
    else if !looksLikeFlag argument then do return .operand argument :: (← scan flags rest)
    else do
      let read ← readFlags flags argument
      let found := read.map fun (flag, value) => Argument.flag flag value
      match read.getLast? with
      | some (flag, none) =>
        if flag.isFinal then return found
        else if flag.takesValue then
          match rest with
          | [] => throw (.missingValue flag)
          | value :: rest =>
            if looksLikeFlag value && !flag.takesDashes then throw (.missingValue flag)
            else return found.dropLast ++ .flag flag (some value) :: (← scan flags rest)
        else return found ++ (← scan flags rest)
      | _ => return found ++ (← scan flags rest)

end Command

end Loadout
