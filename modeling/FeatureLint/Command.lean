import FeatureLint.Command.Arguments
import FeatureLint.Linter.UniqueNames
import FeatureLint.Loader
import FeatureLint.Report.Excerpt
import FeatureLint.Settings.File

/-!
This file holds the commands of the program as functions on a file tree. A command prints text, may
write files, and succeeds or fails.
-/

namespace FeatureLint.Command

inductive Failure where
  | file (path : Path) (cause : FileError)
  | settings (error : SettingsError)
  | load (error : LoadError)
  | problemsFound (count : Nat)
  | alreadyInitialized (path : Path)
deriving DecidableEq, Repr

namespace Failure

def message : Failure → Text
  | file path cause => "IO error at ".toList ++ path.text ++ ": ".toList ++ cause.message
  | settings error => error.message
  | load error => error.message
  | problemsFound count => "Lint failed with ".toList ++ Text.ofNat count ++ " issue(s)".toList
  | alreadyInitialized path => path.text ++ " already exists".toList

/-- A malformed feature file is shown with its lines, and every other failure as its message. -/
def report : Failure → Text
  | load (.malformed path text error) => Report.Excerpt.render path text error
  | failure => "Error: ".toList ++ failure.message

end Failure

/-- An outcome is what a command printed, the tree it left behind, and how it failed, if it did. -/
structure Outcome where
  printed : Text
  tree : FileTree
  failure? : Option Failure

namespace Outcome

/-- A command that fails right away leaves everything as it is. -/
def failed (tree : FileTree) (failure : Failure) : Outcome :=
  ⟨[], tree, some failure⟩

def exitCode (outcome : Outcome) : Nat :=
  if outcome.failure?.isSome then 1 else 0

end Outcome

/-- This function loads the settings and finds the directory that their paths start from. Without a
given file the nearest one above the working place counts, and without any file the defaults do. -/
def loadSettings (tree : FileTree) (given? : Option Path) : Except SettingsError (Settings × Path) :=
  let path? := match given? with
    | some path => some path
    | none => (Settings.find tree tree.workingPath).toOption
  match path? with
  | none => .ok (Settings.default, ⟨[]⟩)
  | some path =>
      match Settings.load tree path with
      | .error error => .error error
      | .ok settings => .ok (settings, path.parent?.getD ⟨[]⟩)

/-- Without given paths those of the settings are linted. -/
def pathsToLint (given : List Path) (settings : Settings) (base : Path) : List Path :=
  if given.isEmpty then settings.paths.map base.join else given

def problemsFailure? (problems : List Problem) : Option Failure :=
  if problems.isEmpty then none else some (.problemsFound problems.length)

def lint (tree : FileTree) (paths : List Path) (settings? : Option Path) (format : Report.Format)
    (out? : Option Path) : Outcome :=
  match loadSettings tree settings? with
  | .error error => .failed tree (.settings error)
  | .ok (settings, base) =>
      match Loader.load tree settings.extension (pathsToLint paths settings base) with
      | .error error => .failed tree (.load error)
      | .ok documents =>
          let problems := ((Runner.default.configure settings).lint documents).1
          let report := format.render problems
          match out? with
          | none => ⟨report, tree, problemsFailure? problems⟩
          | some out =>
              match tree.write out report with
              | .error cause => .failed tree (.file out cause)
              | .ok written => ⟨[], written, problemsFailure? problems⟩

/-- These lines say what a linter does and whether it runs. -/
def linterLines (settings : Settings) (linter : Linter) : Text :=
  let status := if settings.isEnabled linter.name then "enabled".toList else "disabled".toList
  linter.name ++ " (".toList ++ status ++ ")\n  ".toList ++ linter.description ++ ['\n']

def linters (tree : FileTree) (settings? : Option Path) : Outcome :=
  match loadSettings tree settings? with
  | .error error => .failed tree (.settings error)
  | .ok (settings, _) => ⟨Runner.default.linters.flatMap (linterLines settings), tree, none⟩

/-- This function writes settings that name every linter into a directory, which is made if it is
missing. -/
def init (tree : FileTree) (directory : Path) : Outcome :=
  let path := directory.join ⟨Settings.fileName⟩
  if tree.contains path then .failed tree (.alreadyInitialized path)
  else
    match tree.makeDirectories directory with
    | .error cause => .failed tree (.file directory cause)
    | .ok made =>
        let settings := Settings.withLinters (Runner.default.linters.map Linter.name)
        match Settings.save made path settings with
        | .error error => .failed made (.settings error)
        | .ok saved => ⟨"Created ".toList ++ path.text ++ ['\n'], saved, none⟩

def run (tree : FileTree) : Request → Outcome
  | .lint paths settings? format out? => lint tree paths settings? format out?
  | .linters settings? => linters tree settings?
  | .init directory => init tree directory

/-- These are the files that a request may write. -/
def Request.writes : Request → List Path
  | .lint _ _ _ out? => out?.toList
  | .linters _ => []
  | .init directory => [directory.join ⟨Settings.fileName⟩]

end FeatureLint.Command
