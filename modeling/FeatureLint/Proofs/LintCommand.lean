import FeatureLint.Command
import FeatureLint.Proofs.Loading
import FeatureLint.Proofs.Writing

/-!
This file says what the command that lints does in each case. Which settings are in force and which
documents are loaded is said without the command, and these decide the outcome. Main statement: settings
or files that cannot be loaded are reported and leave everything as it is, and otherwise the report goes to
one place and nothing else changes.
-/

namespace FeatureLint.Command

/-- This is where a directory holds its settings. -/
def settingsPath (directory : Path) : Path :=
  directory.join ⟨Settings.fileName⟩

/-- A given file is used in any case, and without one the first file on the way up is used. -/
inductive UsesFile (tree : FileTree) : Option Path → Path → Prop where
  | given (path : Path) : UsesFile tree (some path) path
  | nearest {below : List Path} {directory : Path} {above : List Path}
      (split : tree.workingPath.lineage = below ++ directory :: above)
      (noneBelow : ∀ other ∈ below, tree.isFile (settingsPath other) = false)
      (found : tree.isFile (settingsPath directory) = true) :
      UsesFile tree none (settingsPath directory)

/-- The defaults are in force only when no file is given and there is none on the way up. -/
inductive InForce (tree : FileTree) (given? : Option Path) : Settings → Path → Prop where
  | file {path : Path} {text : Text} {settings : Settings} (uses : UsesFile tree given? path)
      (read : tree.readText path = .ok text) (understood : Settings.ofToml? text = some settings) :
      InForce tree given? settings (path.parent?.getD ⟨[]⟩)
  | defaults (notGiven : given? = none)
      (notFound : ∀ directory ∈ tree.workingPath.lineage, tree.isFile (settingsPath directory) = false) :
      InForce tree given? Settings.default ⟨[]⟩

/-- The file that is used may be unusable or malformed. -/
inductive SettingsFail (tree : FileTree) (given? : Option Path) : SettingsError → Prop where
  | unusable {path : Path} {cause : FileError} (uses : UsesFile tree given? path)
      (read : tree.readText path = .error cause) : SettingsFail tree given? (.unusable path cause)
  | malformed {path : Path} {text : Text} (uses : UsesFile tree given? path)
      (read : tree.readText path = .ok text) (notUnderstood : Settings.ofToml? text = none) :
      SettingsFail tree given? (.malformed path)

/-- This is the file that is used, if there is one. -/
def usedFile? (tree : FileTree) (given? : Option Path) : Option Path :=
  match given? with
  | some path => some path
  | none => (Settings.find tree tree.workingPath).toOption

section Force

variable {tree : FileTree} {given? : Option Path}

/-- The search finds the settings of the first directory on the way up that has any. -/
theorem toOption_find (start : Path) :
    (Settings.find tree start).toOption =
      (start.lineage.find? fun directory => tree.isFile (settingsPath directory)).map settingsPath := by
  have mapped : (start.lineage.map fun directory => directory.join ⟨Settings.fileName⟩).find? tree.isFile =
      (start.lineage.find? fun directory => tree.isFile (settingsPath directory)).map settingsPath :=
    List.find?_map
  rw [Settings.find, mapped]
  cases start.lineage.find? fun directory => tree.isFile (settingsPath directory) <;> rfl

/-- The settings come from the file that is used, and they are the defaults without one. -/
theorem loadSettings_eq (tree : FileTree) (given? : Option Path) :
    loadSettings tree given? =
      match usedFile? tree given? with
      | none => .ok (Settings.default, ⟨[]⟩)
      | some path => (Settings.load tree path).map fun settings => (settings, path.parent?.getD ⟨[]⟩) := by
  unfold loadSettings usedFile?
  cases given? with
  | some path => cases loaded : Settings.load tree path <;> simp [loaded, Except.map]
  | none =>
      cases (Settings.find tree tree.workingPath).toOption with
      | none => rfl
      | some path => cases loaded : Settings.load tree path <;> simp [loaded, Except.map]

end Force

/-- A report is printed, or it is written into one file and every other place keeps what it held, or the
file refuses it. -/
inductive Delivers (tree : FileTree) (report : Text) (failure? : Option Failure) :
    Option Path → Outcome → Prop where
  | printed : Delivers tree report failure? none ⟨report, tree, failure?⟩
  | written {out : Path} {written : FileTree} {place : Place} (wrote : tree.write out report = .ok written)
      (leads : written.placeOf out = .ok place) (sameStart : written.workingPlace = tree.workingPlace)
      (changed : ∀ other, written.contentAt? other =
        if other = place then some (.file (some report)) else tree.contentAt? other) :
      Delivers tree report failure? (some out) ⟨[], written, failure?⟩
  | refused {out : Path} {cause : FileError} (refused : tree.write out report = .error cause) :
      Delivers tree report failure? (some out) ⟨[], tree, some (.file out cause)⟩

/-- Where a report goes is decided by the tree. -/
theorem Delivers.unique {tree : FileTree} {report : Text} {failure? : Option Failure} {out? : Option Path}
    {first second : Outcome} (one : Delivers tree report failure? out? first)
    (other : Delivers tree report failure? out? second) : first = second := by
  cases one with
  | printed =>
      cases other
      rfl
  | written wrote =>
      cases other with
      | written wroteToo =>
          rw [wrote] at wroteToo
          cases wroteToo
          rfl
      | refused refused =>
          rw [wrote] at refused
          cases refused
  | refused refused =>
      cases other with
      | written wrote =>
          rw [wrote] at refused
          cases refused
      | refused refusedToo =>
          rw [refused] at refusedToo
          cases refusedToo
          rfl

/-- Linting reports settings that fail, or files that fail, and otherwise it delivers the problems of the
documents. -/
inductive LintsTo (tree : FileTree) (paths : List Path) (given? : Option Path) (format : Report.Format)
    (out? : Option Path) : Outcome → Prop where
  | settings {error : SettingsError} (fails : SettingsFail tree given? error) :
      LintsTo tree paths given? format out? ⟨[], tree, some (.settings error)⟩
  | load {settings : Settings} {base : Path} {error : LoadError}
      (inForce : InForce tree given? settings base)
      (fails : Loader.FailsToLoad tree settings.extension (pathsToLint paths settings base) error) :
      LintsTo tree paths given? format out? ⟨[], tree, some (.load error)⟩
  | report {settings : Settings} {base : Path} {documents : List Document} {problems : List Problem}
      {outcome : Outcome} (inForce : InForce tree given? settings base)
      (loads : Loader.Loads tree settings.extension (pathsToLint paths settings base) documents)
      (found : ((Runner.default.configure settings).lint documents).1 = problems)
      (delivers : Delivers tree (format.render problems)
        (if problems = [] then none else some (.problemsFound problems.length)) out? outcome) :
      LintsTo tree paths given? format out? outcome

section Lint

variable {tree : FileTree} {paths : List Path} {given? : Option Path} {format : Report.Format}
  {out? : Option Path}

/-- Whatever fails, other than that there are problems, leaves no trace. -/
theorem LintsTo.quiet {outcome : Outcome} (lintsTo : LintsTo tree paths given? format out? outcome)
    {failure : Failure} (failed : outcome.failure? = some failure)
    (other : ∀ count, failure ≠ .problemsFound count) : outcome.printed = [] ∧ outcome.tree = tree := by
  have fromProblems {problems : List Problem}
      (same : (if problems = [] then none else some (Failure.problemsFound problems.length)) = some failure) :
      failure = .problemsFound problems.length := by
    split at same
    · cases same
    · exact (Option.some.inj same).symm
  cases lintsTo with
  | settings | load => exact ⟨rfl, rfl⟩
  | report _ _ _ delivers =>
      cases delivers with
      | printed => exact absurd (fromProblems failed) (other _)
      | written => exact absurd (fromProblems failed) (other _)
      | refused => exact ⟨rfl, rfl⟩

end Lint

end FeatureLint.Command
