import LayerLint.Command.Format
import LayerLint.Text.Pieces

/-! # Command-line arguments

A command line has options, the name of a command, and options and words of that command. Two
options may stand on either side of the name; the later one counts. An option with a value takes it
from behind an equals sign, from the rest of a cluster of short options, or from the next argument,
which may not look like an option. Behind two hyphens everything is a word.
-/

namespace LayerLint.Command

/-- What is wrong with a command line. -/
inductive UsageError where
  | unknownOption (text : String)
  | repeatedOption (text : String)
  | missingValue (text : String)
  | unexpectedValue (text : String)
  | invalidValue (text : String)
  | unexpectedWord (text : String)
  | unknownCommand (text : String)
  | missingCommand
  deriving Repr, DecidableEq

/-- The wording of an error. -/
def UsageError.message : UsageError → String
  | unknownOption text => s!"unknown option '{text}'"
  | repeatedOption text => s!"option '{text}' is given more than once"
  | missingValue text => s!"option '{text}' needs a value"
  | unexpectedValue text => s!"option '{text}' takes no value"
  | invalidValue text => s!"value of '{text}' is not valid"
  | unexpectedWord text => s!"unexpected argument '{text}'"
  | unknownCommand text => s!"unknown command '{text}'"
  | missingCommand => "a command is needed"

/-- An option of the command line. -/
inductive Switch where
  | verbose
  | config
  | format
  | force
  deriving Repr, DecidableEq

namespace Switch

/-- The long name. -/
def longName : Switch → String
  | verbose => "verbose"
  | config => "config"
  | format => "format"
  | force => "force"

/-- The short name, if there is one. -/
def shortName? : Switch → Option Char
  | verbose => some 'v'
  | config => some 'c'
  | format => some 'f'
  | force => none

/-- Whether the option has a value. -/
def takesValue : Switch → Bool
  | config => true
  | format => true
  | _ => false

/-- Whether a text may be the value of the option. -/
def accepts : Switch → String → Bool
  | format, value => (Format.ofName? value).isSome
  | _, value => !value.isEmpty

end Switch

/-- The options that have been read, with their values. -/
abbrev Settings := List (Switch × String)

namespace Settings

/-- The value of an option. -/
def value? (settings : Settings) (switch : Switch) : Option String :=
  settings.lookup switch

/-- Adds an option that stands alone. -/
def addFlag (settings : Settings) (switch : Switch) : Except UsageError Settings :=
  if (settings.value? switch).isSome then .error (.repeatedOption switch.longName)
  else .ok ((switch, "") :: settings)

/-- Adds an option with its value. -/
def addValue (settings : Settings) (switch : Switch) (value : String) :
    Except UsageError Settings :=
  if (settings.value? switch).isSome then .error (.repeatedOption switch.longName)
  else if switch.accepts value then .ok ((switch, value) :: settings)
  else .error (.invalidValue switch.longName)

end Settings

/-- What an argument with options leaves: all is read, or an option waits for its value. -/
inductive Pending where
  | nothing (settings : Settings)
  | value (settings : Settings) (switch : Switch)

/-- Reads a cluster of short options behind their hyphen. -/
def readCluster (known : List Switch) (settings : Settings) :
    List Char → Except UsageError Pending
  | [] => .ok (.nothing settings)
  | c :: rest =>
      match known.find? (·.shortName? == some c) with
      | none => .error (.unknownOption (String.ofList ['-', c]))
      | some switch =>
          if switch.takesValue then
            match rest with
            | [] => .ok (.value settings switch)
            -- one equals sign may stand between the option and its value
            | '=' :: value => (settings.addValue switch (String.ofList value)).map .nothing
            | value => (settings.addValue switch (String.ofList value)).map .nothing
          else
            match settings.addFlag switch with
            | .ok settings => readCluster known settings rest
            | .error error => .error error

/-- Reads a long option behind its hyphens. -/
def readLong (known : List Switch) (settings : Settings) (text : List Char) :
    Except UsageError Pending :=
  let name := String.ofList (text.takeWhile (· != '='))
  let value? := (text.dropWhile (· != '=')).tail?
  match known.find? (·.longName == name), value? with
  | none, _ => .error (.unknownOption name)
  | some switch, some value =>
      if switch.takesValue then (settings.addValue switch (String.ofList value)).map .nothing
      else .error (.unexpectedValue name)
  | some switch, none =>
      if switch.takesValue then .ok (.value settings switch)
      else (settings.addFlag switch).map .nothing

/-- Whether an argument is read as options. A single hyphen is a word. -/
def looksLikeOption (argument : String) : Bool :=
  Text.beginsWith "-" argument && argument != "-"

/-- Reads an argument that looks like options. -/
def readOption (known : List Switch) (settings : Settings) (argument : String) :
    Except UsageError Pending :=
  match argument.toList with
  | '-' :: '-' :: text => readLong known settings text
  | '-' :: cluster => readCluster known settings cluster
  | _ => .ok (.nothing settings)

/-- The options and words of one command. -/
structure Level where
  settings : Settings
  words : List String

/-- Reads options up to the first word. -/
def readGlobals (known : List Switch) (settings : Settings) :
    List String → Except UsageError (Settings × String × List String)
  | [] => .error .missingCommand
  | argument :: rest =>
      if argument = "--" then .error .missingCommand
      else if looksLikeOption argument then
        match readOption known settings argument with
        | .error error => .error error
        | .ok (.nothing settings) => readGlobals known settings rest
        | .ok (.value settings switch) =>
            match rest with
            | [] => .error (.missingValue switch.longName)
            | value :: rest =>
                if looksLikeOption value then .error (.missingValue switch.longName)
                else match settings.addValue switch value with
                  | .ok settings => readGlobals known settings rest
                  | .error error => .error error
      else .ok (settings, argument, rest)

/-- Reads the options and words of a command. -/
def readLevel (known : List Switch) (level : Level) : List String → Except UsageError Level
  | [] => .ok level
  | argument :: rest =>
      if argument = "--" then .ok { level with words := level.words ++ rest }
      else if looksLikeOption argument then
        match readOption known level.settings argument with
        | .error error => .error error
        | .ok (.nothing settings) => readLevel known { level with settings } rest
        | .ok (.value settings switch) =>
            match rest with
            | [] => .error (.missingValue switch.longName)
            | value :: rest =>
                if looksLikeOption value then .error (.missingValue switch.longName)
                else match settings.addValue switch value with
                  | .ok settings => readLevel known { level with settings } rest
                  | .error error => .error error
      else readLevel known { level with words := level.words ++ [argument] } rest

/-- What a command line asks for. -/
inductive Request where
  /-- Report the violations below a directory. -/
  | check (path : String) (format : Format)
  /-- List the rules. -/
  | listRules
  /-- Write a settings file. -/
  | init (force : Bool)
  deriving Repr, DecidableEq

/-- A command line, understood. -/
structure Invocation where
  request : Request
  /-- The settings file that was asked for. -/
  config : Option String
  deriving Repr, DecidableEq

namespace Invocation

/-- The options that every command has. -/
def globals : List Switch := [.verbose, .config]

/-- The request of `check` with its options and words. -/
def checkRequest (level : Level) : Except UsageError Request :=
  let format := ((level.settings.value? .format).bind Format.ofName?).getD .text
  match level.words with
  | [] => .ok (.check "." format)
  | [path] => if path.isEmpty then .error (.invalidValue "path") else .ok (.check path format)
  | _ :: extra :: _ => .error (.unexpectedWord extra)

/-- A request without words. -/
def plainRequest (level : Level) (request : Request) : Except UsageError Request :=
  match level.words with
  | [] => .ok request
  | word :: _ => .error (.unexpectedWord word)

/-- The options and the request of a command with its arguments. -/
def readCommand (name : String) (arguments : List String) :
    Except UsageError (Settings × Request) := do
  match name with
  | "check" =>
      let level ← readLevel (globals ++ [.format]) ⟨[], []⟩ arguments
      return (level.settings, ← checkRequest level)
  | "list-rules" =>
      let level ← readLevel globals ⟨[], []⟩ arguments
      return (level.settings, ← plainRequest level .listRules)
  | "init" =>
      let level ← readLevel (globals ++ [.force]) ⟨[], []⟩ arguments
      let force := (level.settings.value? .force).isSome
      return (level.settings, ← plainRequest level (.init force))
  | _ => throw (.unknownCommand name)

/-- The settings file that is asked for: the one named behind the command's name, or else the one
named before it. The environment's file stands in on each of the two sides that names none, where
it may not be empty, and counts if neither names one. -/
def configOf (inner outer : Settings) (environment : Option String) :
    Except UsageError (Option String) :=
  match inner.value? .config, outer.value? .config with
  | some path, some _ => .ok (some path)
  | inside, outside =>
      if environment = some "" then .error (.invalidValue Switch.config.longName)
      else .ok ((inside.or outside).or environment)

/-- Understands a command line, with the settings file that the environment names. -/
def ofArguments (arguments : List String) (environment : Option String) :
    Except UsageError Invocation := do
  let (outer, name, rest) ← readGlobals globals [] arguments
  let (inner, request) ← readCommand name rest
  return ⟨request, ← configOf inner outer environment⟩

end Invocation

end LayerLint.Command
