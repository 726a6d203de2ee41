import FeatureLint.Settings
import FeatureLint.Toml.Table

/-!
This file reads settings from TOML and writes them as TOML. Keys without a meaning are passed over. A
group of settings may also be written as an array of its values in order.
-/

namespace FeatureLint.Settings

open Toml (Value Entries)

def asBoolean? : Value → Option Bool
  | .boolean truth => some truth
  | _ => none

def asText? : Value → Option Text
  | .string text => some text
  | _ => none

def asPaths? : Value → Option (List Path)
  | .array _ elements => elements.mapM fun element => (asText? element).map Path.mk
  | _ => none

/-- This function reads the value of a field, and a field that is missing has a default. -/
def withDefault? {Result : Type} (fallback : Result) (decode? : Value → Option Result) :
    Option Value → Option Result
  | none => some fallback
  | some value => decode? value

/-- The fields of a group are found by their keys or by their places. A date has none of them. -/
def fieldsOf? (keys : List Text) : Value → Option (List (Option Value))
  | .table _ entries => some (keys.map fun key => Entries.lookup? key entries)
  | .array _ elements => some ((List.range keys.length).map fun index => elements[index]?)
  | .dateTime _ => some (keys.map fun _ => none)
  | _ => none

def sourceOf? (value : Value) : Option (List Path × Text) := do
  let [paths?, extension?] ← fieldsOf? ["paths".toList, "extension".toList] value | none
  let paths ← withDefault? defaultPaths asPaths? paths?
  let extension ← withDefault? defaultExtension asText? extension?
  return (paths, extension)

def linterOf? (entry : Text × Value) : Option LinterSetting := do
  let [enabled?] ← fieldsOf? ["enabled".toList] entry.2 | none
  return ⟨entry.1, ← withDefault? true asBoolean? enabled?⟩

def lintersOf? : Value → Option (List LinterSetting)
  | .table _ entries => entries.mapM linterOf?
  | _ => none

def ofEntries? (entries : Entries) : Option Settings := do
  let (paths, extension) ←
    withDefault? (defaultPaths, defaultExtension) sourceOf? (entries.lookup? "source".toList)
  let linters ← withDefault? [] lintersOf? (entries.lookup? "linters".toList)
  return ⟨paths, extension, linters⟩

/-- This function reads settings and fails when the text is no TOML or a value has the wrong type. -/
def ofToml? (text : Text) : Option Settings := do
  ofEntries? (← Toml.read? text)

/-- An array of several texts has each of them on a line of its own. -/
def textArray (texts : List Text) : Text :=
  match texts with
  | [] => "[]".toList
  | [text] => '[' :: Toml.Quoted.write text ++ [']']
  | _ =>
      "[\n".toList ++
        texts.flatMap (fun text => "    ".toList ++ Toml.Quoted.write text ++ ",\n".toList) ++ [']']

def pairLine (key value : Text) : Text :=
  key ++ " = ".toList ++ value ++ ['\n']

def headerLine (key : List Text) : Text :=
  '[' :: Toml.Key.write key ++ "]\n".toList

def linterToml (setting : LinterSetting) : Text :=
  '\n' :: headerLine ["linters".toList, setting.name] ++
    pairLine "enabled".toList (if setting.enabled then "true".toList else "false".toList)

/-- This function writes settings. Each linter has a table of its own. -/
def toToml (settings : Settings) : Text :=
  headerLine ["source".toList] ++
    pairLine "paths".toList (textArray (settings.paths.map Path.text)) ++
    pairLine "extension".toList (Toml.Quoted.write settings.extension) ++
    (if settings.linters.isEmpty then '\n' :: headerLine ["linters".toList]
      else settings.linters.flatMap linterToml)

end FeatureLint.Settings
