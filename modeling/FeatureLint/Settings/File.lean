import FeatureLint.FileTree
import FeatureLint.Settings.Toml

/-!
This file finds, loads and saves the settings of a project in a file tree.
-/

namespace FeatureLint

inductive SettingsError where
  | unusable (path : Path) (cause : FileError)
  | malformed (path : Path)
  | notFound (start : Path)
deriving DecidableEq, Repr

namespace Settings

def fileName : Text := "gherlint.toml".toList

/-- This function searches upward for the nearest file with settings. -/
def find (tree : FileTree) (start : Path) : Except SettingsError Path :=
  match (start.lineage.map fun directory => directory.join ⟨fileName⟩).find? tree.isFile with
  | some path => .ok path
  | none => .error (.notFound start)

def load (tree : FileTree) (path : Path) : Except SettingsError Settings :=
  match tree.readText path with
  | .error cause => .error (.unusable path cause)
  | .ok text =>
      match ofToml? text with
      | none => .error (.malformed path)
      | some settings => .ok settings

def save (tree : FileTree) (path : Path) (settings : Settings) : Except SettingsError FileTree :=
  (tree.write path settings.toToml).mapError (.unusable path)

end Settings

def SettingsError.message : SettingsError → Text
  | unusable path cause =>
      "IO error reading ".toList ++ path.text ++ ": ".toList ++ cause.message
  | malformed path => "Parse error in ".toList ++ path.text
  | notFound start =>
      "No ".toList ++ Settings.fileName ++ " found searching from ".toList ++ start.text

end FeatureLint
