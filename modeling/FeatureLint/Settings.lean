import FeatureLint.Path

/-!
This file holds the settings of a project: which files are linted and which linters run.
-/

namespace FeatureLint

structure LinterSetting where
  name : Text
  enabled : Bool
deriving DecidableEq, Repr

structure Settings where
  /-- Paths are relative to the file that holds the settings. -/
  paths : List Path
  /-- Inside a directory only files with this extension are linted. -/
  extension : Text
  linters : List LinterSetting
deriving DecidableEq, Repr

namespace Settings

def defaultPaths : List Path := [⟨".".toList⟩]

def defaultExtension : Text := "feature".toList

def default : Settings := ⟨defaultPaths, defaultExtension, []⟩

/-- This function sets a linter on or off. A linter that is already named keeps its place. -/
def setLinter (name : Text) (enabled : Bool) : List LinterSetting → List LinterSetting
  | [] => [⟨name, enabled⟩]
  | setting :: rest =>
      if setting.name = name then ⟨name, enabled⟩ :: rest else setting :: setLinter name enabled rest

/-- This function makes linter settings from pairs, of which the last one for a name counts. -/
def linterSettings (pairs : List (Text × Bool)) : List LinterSetting :=
  pairs.foldl (fun settings pair => setLinter pair.1 pair.2 settings) []

/-- These settings name the given linters and enable all of them. -/
def withLinters (names : List Text) : Settings :=
  { default with linters := linterSettings (names.map fun name => (name, true)) }

/-- A linter that is not named is enabled. -/
def isEnabled (settings : Settings) (name : Text) : Bool :=
  ((settings.linters.find? fun setting => setting.name = name).map LinterSetting.enabled).getD true

/-- Two settings are alike when they differ at most in the way their paths are written and in the
order of the linters. -/
def alike (first second : Settings) : Bool :=
  first.paths.map Path.components = second.paths.map Path.components &&
    first.extension = second.extension &&
    first.linters.length = second.linters.length &&
    first.linters.all fun setting => second.linters.contains setting

end Settings

end FeatureLint
