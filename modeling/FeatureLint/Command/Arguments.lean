import FeatureLint.Path
import FeatureLint.Report

/-!
This file reads the arguments of the command line. Arguments are read from left to right. The value of
an option and the paths of a command are kept until the next option or the end shows that they are
complete, and only then they are judged.
-/

namespace FeatureLint.Command

/-- A request is what a command line asks for. -/
inductive Request where
  | lint (paths : List Path) (settings? : Option Path) (format : Report.Format) (out? : Option Path)
  | linters (settings? : Option Path)
  | init (directory : Path)
deriving DecidableEq, Repr

structure Invocation where
  request : Request
  verbose : Bool
deriving DecidableEq, Repr

/-- Asking for help or for the version also ends the reading of arguments. -/
inductive ArgumentError where
  | helpAsked
  | versionAsked
  | nothingGiven
  | commandMissing
  | unknownCommand
  | unknownArgument
  | badValue
  | repeatedOption
  | needlessValue
deriving DecidableEq, Repr

/-- Only real errors end the program with a code that is not zero. -/
def ArgumentError.exitCode : ArgumentError → Nat
  | helpAsked | versionAsked => 0
  | _ => 2

/-- The program itself and each of its commands have their own switches. -/
inductive Level where
  | program
  | lint
  | linters
  | init
deriving DecidableEq, Repr

/-- These options take a value. -/
inductive OptionName where
  | config
  | format
  | out
deriving DecidableEq, Repr

inductive Switch where
  | verbose
  | help
  | version
  | option (name : OptionName)
deriving DecidableEq, Repr

namespace Switch

def all : List Switch :=
  [verbose, help, version, option .config, option .format, option .out]

def long : Switch → Text
  | verbose => "verbose".toList
  | help => "help".toList
  | version => "version".toList
  | option .config => "config".toList
  | option .format => "format".toList
  | option .out => "out".toList

def short : Switch → Char
  | verbose => 'v'
  | help => 'h'
  | version => 'V'
  | option .config => 'c'
  | option .format => 'f'
  | option .out => 'o'

end Switch

namespace Level

def allows : Level → Switch → Bool
  | _, .verbose | _, .help => true
  | level, .version => level = program
  | level, .option .config => level = lint || level = linters
  | level, .option .format | level, .option .out => level = lint

def switches (level : Level) : List Switch :=
  Switch.all.filter level.allows

def ofName? (name : Text) : Option Level :=
  if name = "lint".toList then some lint
  else if name = "linters".toList then some linters
  else if name = "init".toList then some init
  else none

/-- This is the number of paths that a command takes, if it is bounded. -/
def pathLimit? : Level → Option Nat
  | lint => none
  | init => some 1
  | program | linters => some 0

end Level

/-- These values are not judged yet. -/
inductive Pending where
  | nothing
  | value (name : OptionName) (given? : Option Text)
  | paths (given : List Text)
deriving DecidableEq, Repr

/-- A reading holds what was found so far at one level. -/
structure Reading where
  verbose : Bool := false
  values : List (OptionName × Text) := []
  paths : List Text := []
  pending : Pending := .nothing
  /-- After two dashes every argument is a path. -/
  onlyPaths : Bool := false
deriving DecidableEq, Repr

namespace Reading

def valueOf? (reading : Reading) (name : OptionName) : Option Text :=
  (reading.values.find? fun pair => pair.1 = name).map Prod.snd

/-- Paths must not be empty, and formats must be known. -/
def isValid : OptionName → Text → Bool
  | .config, text | .out, text => !text.isEmpty
  | .format, text => (Report.Format.ofName? text).isSome

/-- This function judges a value, and an option has at most one. -/
def accept (reading : Reading) (name : OptionName) (text : Text) : Except ArgumentError Reading :=
  if (reading.valueOf? name).isSome then .error .repeatedOption
  else if isValid name text then .ok { reading with values := reading.values ++ [(name, text)] }
  else .error .badValue

/-- This function judges what is pending. -/
def resolve (reading : Reading) : Except ArgumentError Reading :=
  let settled := { reading with pending := .nothing }
  match reading.pending with
  | .nothing => .ok settled
  | .value _ none => .error .badValue
  | .value name (some text) => settled.accept name text
  | .paths given =>
      if given.any List.isEmpty then .error .badValue
      else .ok { settled with paths := settled.paths ++ given }

/-- This function takes a switch that stands alone. -/
def take (reading : Reading) (switch : Switch) : Except ArgumentError Reading := do
  let reading ← reading.resolve
  match switch with
  | .verbose => if reading.verbose then .error .repeatedOption else .ok { reading with verbose := true }
  | .help => .error .helpAsked
  | .version => .error .versionAsked
  | .option name => .ok { reading with pending := .value name none }

/-- This function takes an option together with its value. -/
def takeValue (reading : Reading) (name : OptionName) (text : Text) : Except ArgumentError Reading := do
  (← reading.resolve).accept name text

/-- Several switches may be joined behind one dash, and what follows an option is its value. -/
def takeShort (level : Level) : Reading → Text → Except ArgumentError Reading
  | reading, [] => .ok reading
  | reading, character :: rest =>
      match level.switches.find? fun switch => switch.short = character with
      | none => .error .unknownArgument
      | some (.option name) =>
          match rest with
          | [] => reading.take (.option name)
          | '=' :: value => reading.takeValue name value
          | value => reading.takeValue name value
      | some switch =>
          match reading.take switch with
          | .error error => .error error
          | .ok next => takeShort level next rest

/-- This function reads the text behind two dashes, in which a value may follow an equals sign. -/
def takeLong (level : Level) (reading : Reading) (text : Text) : Except ArgumentError Reading :=
  let name := text.takeWhile (· ≠ '=')
  let value? := (text.dropWhile (· ≠ '=')).tail?
  match level.switches.find? fun switch => switch.long = name, value? with
  | none, _ => .error .unknownArgument
  | some (.option name), some value => reading.takeValue name value
  | some switch, none => reading.take switch
  | some _, some _ => .error .needlessValue

/-- This is the number of paths so far. -/
def pathCount (reading : Reading) : Nat :=
  reading.paths.length + match reading.pending with
    | .paths given => given.length
    | _ => 0

def takePath (level : Level) (reading : Reading) (text : Text) : Except ArgumentError Reading :=
  if level.pathLimit?.any fun limit => limit ≤ reading.pathCount then .error .unknownArgument
  else
    match reading.pending with
    | .paths given => .ok { reading with pending := .paths (given ++ [text]) }
    | _ => do
        let reading ← reading.resolve
        return { reading with pending := .paths [text] }

/-- This function reads one argument. -/
def takeArgument (level : Level) (reading : Reading) (argument : Text) : Except ArgumentError Reading :=
  if reading.onlyPaths then reading.takePath level argument
  else
    match argument with
    | ['-', '-'] => .ok { reading with onlyPaths := true }
    | '-' :: '-' :: text => reading.takeLong level text
    | '-' :: character :: text => reading.takeShort level (character :: text)
    | _ =>
        match reading.pending with
        | .value name none => .ok { reading with pending := .value name (some argument) }
        | _ => reading.takePath level argument

/-- This function reads the arguments of one command. -/
def takeAll (level : Level) : Reading → List Text → Except ArgumentError Reading
  | reading, [] => reading.resolve
  | reading, argument :: rest =>
      match reading.takeArgument level argument with
      | .error error => .error error
      | .ok next => takeAll level next rest

def pathOf? (reading : Reading) (name : OptionName) : Option Path :=
  (reading.valueOf? name).map Path.mk

def formatOf (reading : Reading) : Report.Format :=
  ((reading.valueOf? .format).bind Report.Format.ofName?).getD Report.Format.default

/-- This function turns what was found into a request. -/
def request? (reading : Reading) : Level → Option Request
  | .program => none
  | .lint =>
      some (.lint (reading.paths.map Path.mk) (reading.pathOf? .config) reading.formatOf
        (reading.pathOf? .out))
  | .linters => some (.linters (reading.pathOf? .config))
  | .init => some (.init ⟨reading.paths.headD ".".toList⟩)

end Reading

def isCommand (name : Text) : Bool :=
  (Level.ofName? name).isSome || name = "help".toList

/-- Help may be asked about one command, and no command has commands of its own. -/
def readHelp : List Text → ArgumentError
  | [] => .helpAsked
  | [name] => if isCommand name then .helpAsked else .unknownCommand
  | _ => .unknownCommand

/-- What is missing depends on whether anything else was given. -/
def withoutCommand (reading : Reading) : ArgumentError :=
  if reading.verbose then .commandMissing else .nothingGiven

/-- This function reads the arguments up to the name of a command and then those of the command. -/
def readFrom : Reading → List Text → Except ArgumentError Invocation
  | reading, [] => .error (withoutCommand reading)
  | reading, argument :: rest =>
      if argument = "help".toList then .error (readHelp rest)
      else
        match Level.ofName? argument with
        | some level =>
            match Reading.takeAll level {} rest with
            | .error error => .error error
            | .ok found =>
                match found.request? level with
                | none => .error .unknownCommand
                | some request => .ok ⟨request, reading.verbose || found.verbose⟩
        | none =>
            match argument, rest with
            | ['-', '-'], [] => .error (withoutCommand reading)
            | ['-', '-'], next :: _ =>
                .error (if isCommand next then .unknownArgument else .unknownCommand)
            | '-' :: _ :: _, _ =>
                match reading.takeArgument .program argument with
                | .error error => .error error
                | .ok next => readFrom next rest
            | _, _ => .error .unknownCommand

/-- This function reads a whole command line without the name of the program. -/
def read (arguments : List Text) : Except ArgumentError Invocation :=
  readFrom {} arguments

end FeatureLint.Command
