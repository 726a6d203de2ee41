import FeatureLint.Proofs.Rebasing
import FeatureLint.Proofs.SavedSettings
import FeatureLint.Proofs.SettingsSearch

/-!
This file says what initialization does to a project. A directory gets one more file, and that file names every
linter and enables it. Main statement: where no settings were in force before, linting finds the same problems with
the new ones as it did with the defaults, and only the paths of the files are longer.
-/

namespace FeatureLint

namespace Settings

/-- Setting a linter keeps the names and adds its own when it is new. -/
theorem map_name_setLinter (name : Text) (enabled : Bool) (linters : List LinterSetting) :
    (setLinter name enabled linters).map LinterSetting.name =
      if name ∈ linters.map LinterSetting.name then linters.map LinterSetting.name
      else linters.map LinterSetting.name ++ [name] := by
  induction linters with
  | nil => rfl
  | cons setting rest inductionHypothesis =>
      rw [setLinter]
      by_cases same : setting.name = name
      · simp [same]
      · rw [if_neg same, List.map_cons, inductionHypothesis, List.map_cons]
        by_cases known : name ∈ rest.map LinterSetting.name <;> simp [known, Ne.symm same]

/-- Enabling a linter keeps all linters enabled. -/
theorem enabled_setLinter {name : Text} {linters : List LinterSetting}
    (enabled : ∀ setting ∈ linters, setting.enabled = true) :
    ∀ setting ∈ setLinter name true linters, setting.enabled = true := by
  induction linters with
  | nil => exact List.forall_mem_singleton.2 rfl
  | cons setting rest inductionHypothesis =>
      obtain ⟨first, others⟩ := List.forall_mem_cons.1 enabled
      rw [setLinter]
      split
      · exact List.forall_mem_cons.2 ⟨rfl, others⟩
      · exact List.forall_mem_cons.2 ⟨first, inductionHypothesis others⟩

/-- Setting linters on one after another names each of them once and disables none. -/
theorem foldl_setLinter (names : List Text) (linters : List LinterSetting)
    (distinct : (linters.map LinterSetting.name).Nodup)
    (enabled : ∀ setting ∈ linters, setting.enabled = true) :
    let made := names.foldl (fun settings name => setLinter name true settings) linters
    (made.map LinterSetting.name).Nodup ∧
      (∀ name, name ∈ made.map LinterSetting.name ↔ name ∈ linters.map LinterSetting.name ∨ name ∈ names) ∧
      ∀ setting ∈ made, setting.enabled = true := by
  induction names generalizing linters with
  | nil => exact ⟨distinct, fun name => (or_iff_left List.not_mem_nil).symm, enabled⟩
  | cons first rest inductionHypothesis =>
      have named := map_name_setLinter first true linters
      have distinctToo : ((setLinter first true linters).map LinterSetting.name).Nodup := by
        rw [named]
        split
        · exact distinct
        · next fresh =>
            rw [← List.concat_eq_append]
            exact distinct.concat fresh
      obtain ⟨unique, known, allEnabled⟩ := inductionHypothesis _ distinctToo (enabled_setLinter enabled)
      refine ⟨unique, fun name => ?_, allEnabled⟩
      rw [List.foldl_cons, known, named, List.mem_cons]
      split <;> grind

/-- The settings have each of the given names once, and all of them enabled. -/
theorem linters_withLinters (names : List Text) :
    ((withLinters names).linters.map LinterSetting.name).Nodup ∧
      (∀ name, name ∈ (withLinters names).linters.map LinterSetting.name ↔ name ∈ names) ∧
      ∀ setting ∈ (withLinters names).linters, setting.enabled = true := by
  obtain ⟨distinct, known, enabled⟩ := foldl_setLinter names [] List.nodup_nil (List.forall_mem_nil _)
  rw [withLinters, linterSettings, List.foldl_map]
  exact ⟨distinct, fun name => (known name).trans (or_iff_right List.not_mem_nil), enabled⟩

theorem mem_linters_withLinters {names : List Text} {name : Text} (member : name ∈ names) :
    ⟨name, true⟩ ∈ (withLinters names).linters := by
  obtain ⟨-, known, enabled⟩ := linters_withLinters names
  obtain ⟨setting, listed, rfl⟩ := List.mem_map.1 ((known name).2 member)
  have same : setting = ⟨setting.name, true⟩ := congrArg (LinterSetting.mk setting.name) (enabled setting listed)
  exact same ▸ listed

/-- These settings disable no linter. -/
theorem isEnabled_withLinters (names : List Text) (name : Text) :
    (withLinters names).isEnabled name = true := by
  rw [isEnabled]
  cases found : (withLinters names).linters.find? fun setting => setting.name = name with
  | none => rfl
  | some setting => exact (linters_withLinters names).2.2 setting (List.mem_of_find?_eq_some found)

end Settings

/-- Settings that enable all linters leave the runner as it is. -/
theorem Runner.configure_eq_self {runner : Runner} {settings : Settings}
    (enabled : ∀ linter ∈ runner.linters, settings.isEnabled linter.name = true) :
    runner.configure settings = runner :=
  congrArg Runner.mk (List.filter_eq_self.2 enabled)

/-- Putting an entry into a directory sets its name there. -/
theorem Listing.entryAt?_put {place : Place} {root listing : Listing} (name : Text) (entry : Entry)
    (found : entryAt? place root = some (.directory listing)) :
    entryAt? place (put entry (place ++ [name]) root) = some (.directory (set name entry listing)) := by
  induction place generalizing root with
  | nil =>
      cases found
      rfl
  | cons first rest inductionHypothesis =>
      rw [entryAt?_cons, Option.bind_eq_some_iff] at found
      obtain ⟨inner, known, found⟩ := found
      cases inner with
      | file text? =>
          rw [Entry.entryAt?] at found
          split at found <;> cases found
      | directory below =>
          have placed : put entry (first :: rest ++ [name]) root =
              set first (.directory (put entry (rest ++ [name]) below)) root := by
            rw [List.cons_append, put, known]
            exact List.append_ne_nil_of_right_ne_nil rest (List.cons_ne_nil name [])
          rw [placed, entryAt?_cons, lookup?_set, if_pos rfl]
          exact inductionHypothesis found

namespace FileTree

variable {tree : FileTree}

/-- The working place is never made, because its path ends in no name. -/
theorem eq_of_makeDirectories_here {made : FileTree} (succeeded : tree.makeDirectories .here = .ok made) :
    made = tree := by
  have lineage : Path.here.lineage = [.here, ⟨[]⟩] := by
    with_unfolding_all rfl
  have pieces : (Text.cutAt '/' Path.here.text).reverse.dropWhile List.isEmpty = [['.']] := by
    decide
  obtain ⟨error, refused⟩ : ∃ error, tree.makeDirectory .here = .error error := by
    rw [makeDirectory, target, if_neg (by decide)]
    simp only [pieces]
    cases tree.follow (tree.startOf .here) ([].reverse ++ [['.']]) with
    | error error => exact ⟨error, rfl⟩
    | ok place => exact ⟨.alreadyExists, rfl⟩
  have above : tree.makeLineage [⟨[]⟩] = .ok tree := rfl
  rw [makeDirectories, lineage, makeLineage, if_neg (by decide), refused] at succeeded
  have decided : (if tree.isDirectory .here then .ok tree else .error error) =
      (.ok made : Except FileError FileTree) := by
    cases error <;> simpa only [above, refused] using succeeded
  split at decided
  · exact (Except.ok.inj decided).symm
  · cases decided

end FileTree

namespace Command

/-- These settings are written by initialization. -/
def initialSettings : Settings :=
  Settings.withLinters (Runner.default.linters.map Linter.name)

/-- A tree is initialized from another one when its working place got the file with the settings and nothing else
changed. -/
structure Initialized (tree after : FileTree) (listing : Listing) : Prop where
  directory : tree.entryAt? tree.workingPlace = some (.directory listing)
  free : Listing.lookup? Settings.fileName listing = none
  workingPlace : after.workingPlace = tree.workingPlace
  grown : after.entryAt? tree.workingPlace =
    some (.directory (Listing.set Settings.fileName (.file (some initialSettings.toToml)) listing))
  unchanged : ∀ place, place ≠ tree.workingPlace ++ [Settings.fileName] →
    after.contentAt? place = tree.contentAt? place

/-- These are the problems that a runner finds in files, if they could be loaded. -/
def findingsIn (runner : Runner) : Except LoadError (List Document) → Except Failure (List Problem)
  | .error error => .error (.load error)
  | .ok documents => .ok (runner.lint documents).1

/-- These are the problems that linting without arguments finds. -/
def findings (tree : FileTree) : Except Failure (List Problem) :=
  match loadSettings tree none with
  | .error error => .error (.settings error)
  | .ok (settings, base) =>
      findingsIn (Runner.default.configure settings)
        (Loader.load tree settings.extension (pathsToLint [] settings base))

/-- This is how findings are told to the user. -/
def Outcome.ofFindings (tree : FileTree) (format : Report.Format) : Except Failure (List Problem) → Outcome
  | .error failure => .failed tree failure
  | .ok problems => ⟨format.render problems, tree, problemsFailure? problems⟩

/-- Findings are alike when they are the same error or the same problems, up to a renaming of the files. -/
inductive FindsAlike (renames : Path → Path → Prop) :
    Except Failure (List Problem) → Except Failure (List Problem) → Prop where
  | load {error other : LoadError} (renamed : error.Renamed renames other) :
      FindsAlike renames (.error (.load error)) (.error (.load other))
  | problems {problems others : List Problem}
      (renamed : List.Forall₂ (Problem.Renamed renames) problems others) :
      FindsAlike renames (.ok problems) (.ok others)

variable {tree after : FileTree} {listing : Listing}

/-- Whatever stands under the name of the settings is there. -/
theorem contains_of_lookup? {entry : Entry}
    (directory : tree.entryAt? tree.workingPlace = some (.directory listing))
    (known : Listing.lookup? Settings.fileName listing = some entry) :
    tree.contains (settingsPath .here) = true := by
  have found := FileTree.find_join (FileTree.find_here directory) Settings.isName_fileName known
  rw [FileTree.contains, settingsPath, found]

/-- The settings file is written into the working place. -/
theorem target_here {place : Place} {name : Text}
    (aimed : tree.target (settingsPath .here) = .ok (.name place name false)) :
    place = tree.workingPlace ∧ name = Settings.fileName ∧
      tree.contentAt? tree.workingPlace = some .directory := by
  obtain ⟨-, -, -, -, before, pieces, followed⟩ := FileTree.exists_pieces_of_target aimed
  have cut : Text.cutAt '/' (settingsPath .here).text = [Path.here.text] ++ [Settings.fileName] := by
    decide
  rw [cut] at pieces
  obtain ⟨rfl, last⟩ := List.append_inj' pieces rfl
  obtain ⟨rfl, directory⟩ := (FileTree.follow_dot_iff tree _ _).1 followed
  exact ⟨rfl, (List.head_eq_of_cons_eq last).symm, directory⟩

/-- The command stops when something stands under the name of the settings. -/
theorem init_of_contains (present : tree.contains (settingsPath .here) = true) :
    init tree .here = .failed tree (.alreadyInitialized (settingsPath .here)) :=
  if_pos present

/-- Initialization that succeeds finds no settings in the working place and saves its own. -/
theorem exists_save_of_init (succeeded : (init tree .here).failure? = none) :
    tree.contains (settingsPath .here) = false ∧
      ∃ after, Settings.save tree (settingsPath .here) initialSettings = .ok after ∧
        init tree .here = ⟨"Created ./gherlint.toml\n".toList, after, none⟩ := by
  cases present : tree.contains (settingsPath .here) with
  | true =>
      rw [init_of_contains present] at succeeded
      cases succeeded
  | false =>
      have absent := Bool.eq_false_iff.1 present
      rw [settingsPath] at absent ⊢
      rw [init, if_neg absent] at succeeded ⊢
      cases made : tree.makeDirectories .here with
      | error cause =>
          rw [made] at succeeded
          cases succeeded
      | ok same =>
          obtain rfl : same = tree := FileTree.eq_of_makeDirectories_here made
          rw [made, ← initialSettings] at succeeded
          rw [← initialSettings]
          cases saved : Settings.save same (Path.here.join ⟨Settings.fileName⟩) initialSettings with
          | error error =>
              simp only [saved] at succeeded
              cases succeeded
          | ok after =>
              refine ⟨rfl, after, rfl, ?_⟩
              simp only [saved]
              rfl

/-- Initialization that succeeds adds one file. -/
theorem initialized_of_save (absent : tree.contains (settingsPath .here) = false)
    (saved : Settings.save tree (settingsPath .here) initialSettings = .ok after) :
    ∃ listing, Initialized tree after listing := by
  unfold Settings.save at saved
  cases wrote : tree.write (settingsPath .here) initialSettings.toToml with
  | error cause =>
      rw [wrote] at saved
      cases saved
  | ok written =>
      rw [wrote] at saved
      cases saved
      obtain ⟨place, name, aimed, free, rfl⟩ := FileTree.exists_target_of_write wrote
      obtain ⟨rfl, rfl, isDirectory⟩ := target_here aimed
      obtain ⟨entry, directory, content⟩ := Option.map_eq_some_iff.1 isDirectory
      cases entry with
      | file text? => cases content
      | directory listing =>
          refine ⟨listing, directory, ?_, rfl, Listing.entryAt?_put _ _ directory, ?_⟩
          · rw [← Option.not_isSome_iff_eq_none, Option.isSome_iff_exists]
            rintro ⟨entry, known⟩
            rw [contains_of_lookup? directory known] at absent
            cases absent
          · intro other elsewhere
            have holder : tree.contentAt? (tree.workingPlace ++ [Settings.fileName]).dropLast =
                some .directory := by
              rwa [List.dropLast_concat]
            exact (Listing.contentAt?_put holder free other).trans (if_neg elsewhere)

section Settings

variable (names : ∀ name ∈ tree.workingPlace, Path.IsName name)

include names

/-- Without any settings on the way up the defaults are in force. -/
theorem loadSettings_of_nowhere (nowhere : ∀ place, place <+: tree.workingPlace → ¬tree.HoldsSettings place) :
    loadSettings tree none = .ok (Settings.default, ⟨[]⟩) := by
  have missing : Settings.find tree tree.workingPath = .error (.notFound tree.workingPath) := by
    apply (Settings.find_eq_notFound_iff (Path.isStraight_ofPlace names)).2
    rw [Path.names_ofPlace names]
    exact ⟨rfl, nowhere⟩
  rw [loadSettings, missing]
  rfl

/-- The settings of the working place are in force when it holds any, and their paths start there. -/
theorem loadSettings_of_workingPlace {text : Text} {settings : Settings}
    (holds : tree.entryAt? (tree.workingPlace ++ [Settings.fileName]) = some (.file (some text)))
    (understood : Settings.ofToml? text = some settings) :
    loadSettings tree none = .ok (settings, tree.workingPath) := by
  have straight : tree.workingPath.IsStraight := Path.isStraight_ofPlace names
  have spelled : tree.workingPath.names = tree.workingPlace := Path.names_ofPlace names
  have isFile : tree.isFile (settingsPath tree.workingPath) = true := by
    rw [FileTree.isFile_settingsPath_iff straight, spelled]
    exact ⟨some text, holds⟩
  have found := (Settings.Searches.found isFile).tries_lineage.1
  have read : tree.readText (settingsPath tree.workingPath) = .ok text := by
    rw [← spelled] at holds
    rw [FileTree.readText, settingsPath,
      (FileTree.find_join_of_isStraight straight Settings.isName_fileName).2 holds]
  have above : (settingsPath tree.workingPath).parent? = some tree.workingPath := by
    have joined : settingsPath tree.workingPath = Path.ofPlace (tree.workingPlace ++ [Settings.fileName]) :=
      Path.join_ofPlace names Settings.isName_fileName.2.2.2
    rw [joined]
    exact Path.parent?_ofPlace names Settings.isName_fileName
  rw [loadSettings_eq, usedFile?, found]
  simp only [Settings.load_eq_ok_iff.2 ⟨text, read, understood⟩, above]
  rfl

end Settings

/-- Linting without arguments tells what it finds. -/
theorem lint_eq_ofFindings (tree : FileTree) (format : Report.Format) :
    lint tree [] none format none = .ofFindings tree format (findings tree) := by
  rw [lint, findings]
  cases loadSettings tree none with
  | error error => rfl
  | ok pair =>
      simp only []
      cases Loader.load tree pair.1.extension (pathsToLint [] pair.1 pair.2) <;> rfl

/-- Settings that disable nothing let every linter see the files that they name. -/
theorem findings_of_enabled {settings : Settings} {base : Path}
    (inForce : loadSettings tree none = .ok (settings, base))
    (enabled : ∀ linter ∈ Runner.default.linters, settings.isEnabled linter.name = true) :
    findings tree =
      findingsIn Runner.default (Loader.load tree settings.extension (settings.paths.map base.join)) := by
  rw [findings, inForce]
  simp only [Runner.configure_eq_self enabled]
  rfl

section Alike

variable {renames : Path → Path → Prop}

/-- The same is found in files that are loaded alike. -/
theorem findsAlike_of_loadsAlike (apart : Path.KeepsApart renames)
    {loaded others : Except LoadError (List Document)} (alike : Loader.LoadsAlike renames loaded others) :
    FindsAlike renames (findingsIn Runner.default loaded) (findingsIn Runner.default others) := by
  cases loaded <;> cases others
  case error.error => exact .load alike
  case ok.ok => exact .problems (Runner.lint_default_renamed apart alike)
  all_goals exact alike.elim

/-- Findings that are alike up to some renamings are alike up to more of them. -/
theorem FindsAlike.imp {other : Path → Path → Prop}
    (weaker : ∀ file another, renames file another → other file another)
    {found foundToo : Except Failure (List Problem)} (alike : FindsAlike renames found foundToo) :
    FindsAlike other found foundToo := by
  cases alike with
  | load renamed => exact .load (renamed.imp weaker)
  | problems renamed => exact .problems (renamed.imp fun _ _ => Problem.Renamed.imp weaker)

end Alike

namespace Initialized

variable (initialized : Initialized tree after listing)

include initialized

/-- Afterwards the settings stand in the working directory. -/
theorem entryAt?_fileName :
    after.entryAt? (tree.workingPlace ++ [Settings.fileName]) =
      some (.file (some initialSettings.toToml)) := by
  rw [FileTree.entryAt?, FileTree.entryAt?_append Settings.fileName initialized.grown, Listing.lookup?_set,
    if_pos rfl]

/-- A second initialization is refused. -/
theorem init_again : init after .here = .failed after (.alreadyInitialized (settingsPath .here)) := by
  have directory := initialized.grown
  rw [← initialized.workingPlace] at directory
  apply init_of_contains
  exact contains_of_lookup? directory ((Listing.lookup?_set _ _ _ _).trans (if_pos rfl))

/-- The initial settings are in force in an initialized tree. -/
theorem inForce (names : ∀ name ∈ tree.workingPlace, Path.IsName name) :
    loadSettings after none = .ok (initialSettings, tree.workingPath) := by
  have holds := initialized.entryAt?_fileName
  have sameBase : after.workingPath = tree.workingPath :=
    congrArg Path.ofPlace initialized.workingPlace
  rw [← initialized.workingPlace] at holds names
  rw [← sameBase]
  exact loadSettings_of_workingPlace names holds (Settings.ofToml?_toToml (Settings.linters_withLinters _).1)

/-- The files of the working place are loaded alike before and after. The new file is not among them, because it has
another extension. -/
theorem loadsAlike (names : ∀ name ∈ tree.workingPlace, Path.IsName name) (proper : listing.Proper) :
    Loader.LoadsAlike (Path.Rebased .here (tree.workingPath.join .here))
      (Loader.load tree Settings.defaultExtension [.here])
      (Loader.load after Settings.defaultExtension [tree.workingPath.join .here]) := by
  apply Loader.load_rebased (FileTree.find_here initialized.directory) proper
    (FileTree.find_ofPlace_here names initialized.grown)
    (Listing.proper_set proper Settings.isName_fileName initialized.free)
    (Listing.placesWith_set initialized.free (by decide))
  intro place member
  obtain ⟨below, -, text?, known⟩ := Listing.exists_file_of_mem_placesWith proper member
  rw [known]
  exact Listing.entryAt?_set initialized.free below known

/-- What linting finds without arguments differs only in how the paths of the files start. -/
theorem findsAlike (names : ∀ name ∈ tree.workingPlace, Path.IsName name) (proper : listing.Proper)
    (nowhere : ∀ place, place <+: tree.workingPlace → ¬tree.HoldsSettings place) :
    FindsAlike (Path.SameRest .here (tree.workingPath.join .here)) (findings tree) (findings after) := by
  have before := findings_of_enabled (loadSettings_of_nowhere names nowhere) fun _ _ => rfl
  have later := findings_of_enabled (initialized.inForce names) fun linter _ =>
    Settings.isEnabled_withLinters _ linter.name
  have present : Path.here.text ≠ [] := by decide
  have base : tree.workingPath.join .here = Path.ofPlace (tree.workingPlace ++ [Path.here.text]) :=
    Path.join_ofPlace names (by decide)
  have presentToo : (tree.workingPath.join .here).text ≠ [] := base ▸ List.cons_ne_nil _ _
  have unended : (tree.workingPath.join .here).text.getLast? ≠ some '/' := by
    rw [base, Path.ofPlace, List.getLast?_cons, Text.getLast?_joinWith _ _ present]
    decide
  have alike := findsAlike_of_loadsAlike (Path.keepsApart_rebased present presentToo)
    (initialized.loadsAlike names proper)
  rw [before, later]
  exact alike.imp fun _ _ => Path.Rebased.sameRest present presentToo (by decide) unended

end Initialized

/-- Where no settings are on the way up, initialization that succeeds writes settings which enable every linter and
changes nothing else. A second one is refused. Linting without arguments finds the same before and after: the same
error, or the same problems on the same lines, in files whose paths start with the working place and no longer with
the dot alone. -/
theorem init_changes_no_findings (tree : FileTree) (proper : tree.Proper)
    (nowhere : ∀ place, place <+: tree.workingPlace → ¬tree.HoldsSettings place)
    (succeeded : (run tree (.init .here)).failure? = none) :
    ∃ after settings,
      run tree (.init .here) = ⟨"Created ./gherlint.toml\n".toList, after, none⟩ ∧
      (Settings.load after ⟨"./gherlint.toml".toList⟩ = .ok settings ∧
        loadSettings after none = .ok (settings, tree.workingPath) ∧
        ∀ linter ∈ Runner.default.linters,
          ⟨linter.name, true⟩ ∈ settings.linters ∧ settings.isEnabled linter.name = true) ∧
      (after.workingPlace = tree.workingPlace ∧
        ∀ place, place ≠ tree.workingPlace ++ [Settings.fileName] →
          after.contentAt? place = tree.contentAt? place) ∧
      run after (.init .here) = ⟨[], after, some (.alreadyInitialized ⟨"./gherlint.toml".toList⟩)⟩ ∧
      (∀ format, run tree (.lint [] none format none) = .ofFindings tree format (findings tree) ∧
        run after (.lint [] none format none) = .ofFindings after format (findings after)) ∧
      FindsAlike (Path.SameRest .here (tree.workingPath.join .here)) (findings tree) (findings after) := by
  obtain ⟨absent, after, saved, created⟩ := exists_save_of_init succeeded
  obtain ⟨listing, initialized⟩ := initialized_of_save absent saved
  have properRoot : (Entry.directory tree.root).Proper := proper
  obtain ⟨names, properListing⟩ := Entry.proper_of_entryAt? properRoot initialized.directory
  have understood := Settings.ofToml?_toToml
    (Settings.linters_withLinters (Runner.default.linters.map Linter.name)).1
  have loaded := Settings.load_eq_ok_iff.2 ⟨_, Settings.readText_of_save saved, understood⟩
  refine ⟨after, initialSettings, created, ⟨loaded, initialized.inForce names, fun linter member => ?_⟩,
    ⟨initialized.workingPlace, initialized.unchanged⟩, initialized.init_again,
    fun format => ⟨lint_eq_ofFindings tree format, lint_eq_ofFindings after format⟩,
    initialized.findsAlike names properListing nowhere⟩
  exact ⟨Settings.mem_linters_withLinters (List.mem_map_of_mem member), Settings.isEnabled_withLinters _ _⟩

/-- A directory above has the name of the settings, and that does not count. The one problem is found before and
after. -/
theorem init_changes_no_findings_below_directory :
    let source := "Feature: F\nScenario: S\nScenario: S\n".toList
    let tree : FileTree := ⟨[(Settings.fileName, .directory []),
      ("d".toList, .directory [("a.feature".toList, .file (some source))])], ["d".toList]⟩
    ∃ after problem other,
      run tree (.init .here) = ⟨"Created ./gherlint.toml\n".toList, after, none⟩ ∧
      run after (.init .here) = ⟨[], after, some (.alreadyInitialized ⟨"./gherlint.toml".toList⟩)⟩ ∧
      findings tree = .ok [problem] ∧ findings after = .ok [other] ∧ other.message = problem.message ∧
      problem.location = ⟨⟨"./a.feature".toList⟩, 3⟩ ∧ other.location = ⟨⟨"/d/./a.feature".toList⟩, 3⟩ := by
  intro source tree
  have proper : tree.Proper := by
    simp only [FileTree.Proper, tree, Listing.Proper, Entry.Proper]
    decide
  have names : ∀ name ∈ tree.workingPlace, Path.IsName name := by
    decide
  have nowhere : ∀ place, place <+: tree.workingPlace → ¬tree.HoldsSettings place := by
    have absent : ∀ place ∈ tree.workingPlace.inits, ¬tree.HoldsSettings place := by
      decide
    intro place inside
    exact absent place ((List.mem_inits _ _).2 inside)
  have succeeded : (run tree (.init .here)).failure? = none := by
    with_unfolding_all rfl
  obtain ⟨problem, found, located⟩ : ∃ problem, findings tree = .ok [problem] ∧
      problem.location = ⟨⟨"./a.feature".toList⟩, 3⟩ := by
    let file : Path := ⟨"./a.feature".toList⟩
    let document := Document.ofFeature file
      (some ⟨1, "F".toList, [⟨2, "S".toList, .scenario⟩, ⟨3, "S".toList, .scenario⟩], []⟩)
    have parsed : Document.parse file source = .ok document := by
      with_unfolding_all rfl
    have sorted : (Listing.filesWith Settings.defaultExtension .here
        [("a.feature".toList, .file (some source))]).mergeSort Path.le = [file] :=
      List.mergeSort_singleton file
    have stands : Loader.StandsFor tree Settings.defaultExtension .here [file] := sorted ▸ .directory rfl
    have loads : Loader.load tree Settings.defaultExtension [.here] = .ok [document] :=
      Loader.load_eq_ok_iff.2 ⟨[file], ⟨[[file]], .cons stands .nil, rfl⟩, .cons ⟨source, rfl, parsed⟩ .nil⟩
    have once : (Runner.default.lint [document]).1.map Problem.location = [⟨file, 3⟩] := by
      decide +kernel
    obtain ⟨problem, only, located⟩ := List.map_eq_singleton_iff.1 once
    refine ⟨problem, ?_, located⟩
    have all := findings_of_enabled (loadSettings_of_nowhere names nowhere) fun _ _ => rfl
    have same : Settings.default.paths.map (Path.join ⟨[]⟩) = [.here] := rfl
    rw [all, same]
    show findingsIn Runner.default (Loader.load tree Settings.defaultExtension [.here]) = _
    rw [loads, findingsIn, only]
  obtain ⟨after, settings, created, -, -, again, -, alike⟩ :=
    init_changes_no_findings tree proper nowhere succeeded
  rw [found] at alike
  generalize later : findings after = foundToo at alike
  cases alike with
  | problems renamed =>
      obtain ⟨other, _, same, ⟨⟩, rfl⟩ := List.forall₂_cons_left_iff.1 renamed
      obtain ⟨rest, first, second⟩ := same.file
      have line := same.line
      rw [located] at first line
      have lead : "./a.feature".toList = Path.here.text ++ "/a.feature".toList := rfl
      have behind : "/a.feature".toList = rest := List.append_cancel_left (lead.symm.trans first)
      have file : other.location.file = ⟨"/d/./a.feature".toList⟩ := by
        apply congrArg Path.mk
        rw [second, ← behind]
        rfl
      refine ⟨after, problem, other, created, again, found, later, same.message, located, ?_⟩
      rw [← file]
      exact congrArg (Location.mk other.location.file) line

end Command

end FeatureLint
