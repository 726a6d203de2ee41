import FeatureLint.Loader
import FeatureLint.Settings.File
import Mathlib.Data.List.Forall2

/-!
This file says when settings and feature files are loaded and which error is reported when they are not.
Main statements: all files are loaded when each path leads somewhere and each file can be read and parsed,
and otherwise the first path that leads nowhere is reported, or the first file that fails.
-/

namespace FeatureLint

namespace Settings

/-- Settings are loaded exactly when their file can be read and understood. -/
theorem load_eq_ok_iff {tree : FileTree} {path : Path} {settings : Settings} :
    load tree path = .ok settings ↔
      ∃ text, tree.readText path = .ok text ∧ ofToml? text = some settings := by
  unfold load
  cases tree.readText path with
  | error cause => simp
  | ok text => cases read : ofToml? text <;> simp [read]

/-- Settings fail when their file cannot be read, or when its text is malformed. -/
theorem load_eq_error_iff {tree : FileTree} {path : Path} {error : SettingsError} :
    load tree path = .error error ↔
      (∃ cause, tree.readText path = .error cause ∧ error = .unusable path cause) ∨
        ∃ text, tree.readText path = .ok text ∧ ofToml? text = none ∧ error = .malformed path := by
  unfold load
  cases tree.readText path with
  | error cause => simp [eq_comm]
  | ok text => cases read : ofToml? text <;> simp [read, eq_comm]

end Settings

namespace Loader

section Sequence

variable {Item Result Error : Type} {load : Item → Except Error Result} {items : List Item}

/-- A sequence loads its first item and then the others. -/
theorem mapM_cons_eq (load : Item → Except Error Result) (item : Item) (items : List Item) :
    (item :: items).mapM load =
      (load item).bind fun result => (items.mapM load).bind fun results => .ok (result :: results) :=
  List.mapM_cons

/-- A sequence of loads succeeds when each of them does. -/
theorem mapM_eq_ok_iff {results : List Result} :
    items.mapM load = .ok results ↔
      List.Forall₂ (fun item result => load item = .ok result) items results := by
  induction items generalizing results with
  | nil =>
      rw [List.forall₂_nil_left_iff]
      exact ⟨fun same => (Except.ok.inj same).symm, fun same => congrArg Except.ok same.symm⟩
  | cons item items inductionHypothesis =>
      rw [mapM_cons_eq, List.forall₂_cons_left_iff]
      cases first : load item with
      | error error => simp [Except.bind]
      | ok result =>
          cases others : items.mapM load with
          | error error =>
              rw [others] at inductionHypothesis
              have never (tail : List Result) :
                  ¬List.Forall₂ (fun item result => load item = .ok result) items tail := by
                intro all
                cases inductionHypothesis.2 all
              simp [Except.bind, never]
          | ok tail =>
              rw [others] at inductionHypothesis
              simp [Except.bind, ← inductionHypothesis, eq_comm]

/-- A sequence of loads fails with the first error. -/
theorem mapM_eq_error_iff {error : Error} :
    items.mapM load = .error error ↔
      ∃ before item after, items = before ++ item :: after ∧
        (∀ other ∈ before, ∃ result, load other = .ok result) ∧ load item = .error error := by
  induction items with
  | nil =>
      constructor
      · intro failed
        cases failed
      · rintro ⟨before, item, after, split, -⟩
        exact absurd split (by simp)
  | cons item items inductionHypothesis =>
      rw [mapM_cons_eq]
      constructor
      · intro failed
        cases first : load item with
        | error cause =>
            rw [first] at failed
            cases failed
            exact ⟨[], item, items, rfl, List.forall_mem_nil _, first⟩
        | ok result =>
            cases others : items.mapM load with
            | ok results =>
                rw [first, others] at failed
                cases failed
            | error cause =>
                rw [first, others] at failed
                cases failed
                obtain ⟨before, failing, after, rfl, loaded, cause⟩ := inductionHypothesis.1 others
                exact ⟨item :: before, failing, after, rfl, List.forall_mem_cons.2 ⟨⟨result, first⟩, loaded⟩,
                  cause⟩
      · rintro ⟨before, failing, after, split, loaded, cause⟩
        cases before with
        | nil =>
            cases split
            rw [cause]
            rfl
        | cons head before =>
            obtain ⟨same, tail⟩ := List.cons_eq_cons.1 split
            obtain ⟨⟨result, first⟩, others⟩ := List.forall_mem_cons.1 loaded
            rw [same, first, inductionHypothesis.2 ⟨before, failing, after, tail, others, cause⟩]
            rfl

end Sequence

section Paths

variable {tree : FileTree} {extension : Text}

/-- A path to a file stands for that file, and a path to a directory for the files below it. -/
inductive StandsFor (tree : FileTree) (extension : Text) (path : Path) : List Path → Prop where
  | file {text? : Option Text} (found : tree.find path = .ok (.file text?)) :
      StandsFor tree extension path [path]
  | directory {listing : Listing} (found : tree.find path = .ok (.directory listing)) :
      StandsFor tree extension path ((Listing.filesWith extension path listing).mergeSort Path.le)

/-- The files at a path are the ones that it stands for. -/
theorem filesAt_eq_ok_iff {path : Path} {files : List Path} :
    filesAt tree extension path = .ok files ↔ StandsFor tree extension path files := by
  unfold filesAt
  constructor
  · intro named
    split at named
    · next found =>
        cases named
        exact .file found
    · next found =>
        cases named
        exact .directory found
    · cases named
  · rintro (found | found)
    · rw [found]
    · rw [found]

/-- Only a path that leads nowhere stands for nothing. -/
theorem filesAt_eq_error_iff {path : Path} {error : LoadError} :
    filesAt tree extension path = .error error ↔ tree.contains path = false ∧ error = .missing path := by
  unfold filesAt FileTree.contains
  cases tree.find path with
  | error cause => simp [eq_comm]
  | ok entry => cases entry <;> simp

/-- A path gives files exactly when something is there. -/
theorem exists_filesAt_iff {path : Path} :
    (∃ files, filesAt tree extension path = .ok files) ↔ tree.contains path = true := by
  unfold filesAt FileTree.contains
  cases tree.find path with
  | error cause => simp
  | ok entry => cases entry <;> simp

/-- These are the files that the paths stand for, in the order of the paths. -/
def Collects (tree : FileTree) (extension : Text) (paths files : List Path) : Prop :=
  ∃ groups, List.Forall₂ (StandsFor tree extension) paths groups ∧ files = groups.flatten

/-- Paths are collected one by one and in order. -/
theorem collect_eq (paths : List Path) :
    collect tree extension paths = (paths.mapM (filesAt tree extension)).map List.flatten := by
  induction paths with
  | nil => rfl
  | cons path paths inductionHypothesis =>
      rw [mapM_cons_eq, collect, inductionHypothesis]
      cases filesAt tree extension path with
      | error error => rfl
      | ok files => cases paths.mapM (filesAt tree extension) <;> rfl

/-- The files of several paths are those that the paths stand for, one path after the other. -/
theorem collect_eq_ok_iff {paths files : List Path} :
    collect tree extension paths = .ok files ↔ Collects tree extension paths files := by
  have each (groups : List (List Path)) : paths.mapM (filesAt tree extension) = .ok groups ↔
      List.Forall₂ (StandsFor tree extension) paths groups := by
    simp only [mapM_eq_ok_iff, filesAt_eq_ok_iff]
  rw [collect_eq, Collects]
  simp only [← each]
  cases paths.mapM (filesAt tree extension) with
  | error error => simp [Except.map]
  | ok groups => simp [Except.map, eq_comm]

/-- Collecting fails on the first path that leads nowhere. -/
theorem collect_eq_error_iff {paths : List Path} {error : LoadError} :
    collect tree extension paths = .error error ↔
      ∃ before path after, paths = before ++ path :: after ∧ (∀ other ∈ before, tree.contains other = true) ∧
        tree.contains path = false ∧ error = .missing path := by
  have same : collect tree extension paths = .error error ↔
      paths.mapM (filesAt tree extension) = .error error := by
    rw [collect_eq]
    cases paths.mapM (filesAt tree extension) <;> simp [Except.map]
  rw [same, mapM_eq_error_iff]
  simp only [exists_filesAt_iff, filesAt_eq_error_iff]

end Paths

section Files

variable {tree : FileTree}

/-- A file holds a document when it has a text and the text is that document. -/
def HoldsDocument (tree : FileTree) (path : Path) (document : Document) : Prop :=
  ∃ text, tree.readText path = .ok text ∧ Document.parse path text = .ok document

/-- A file fails when it has no text or the text is no document. -/
inductive FileFails (tree : FileTree) (path : Path) : LoadError → Prop where
  | unreadable {cause : FileError} (read : tree.readText path = .error cause) :
      FileFails tree path (.unreadable path cause)
  | malformed {text : Text} {error : ParseError} (read : tree.readText path = .ok text)
      (parsed : Document.parse path text = .error error) : FileFails tree path (.malformed path text error)

/-- A file is loaded exactly when it holds a document. -/
theorem loadFile_eq_ok_iff {path : Path} {document : Document} :
    loadFile tree path = .ok document ↔ HoldsDocument tree path document := by
  unfold loadFile HoldsDocument
  cases tree.readText path with
  | error cause => simp
  | ok text => cases parsed : Document.parse path text <;> simp [parsed]

/-- A file is refused exactly when it fails, and with the error of that failure. -/
theorem loadFile_eq_error_iff {path : Path} {error : LoadError} :
    loadFile tree path = .error error ↔ FileFails tree path error := by
  unfold loadFile
  constructor
  · intro failed
    split at failed
    · next read =>
        cases failed
        exact .unreadable read
    · next read =>
        split at failed
        · next parsed =>
            cases failed
            exact .malformed read parsed
        · cases failed
  · rintro (read | ⟨read, parsed⟩)
    · rw [read]
    · rw [read]
      simp only [parsed]

/-- Files are loaded one by one and in order. -/
theorem loadFiles_eq (files : List Path) : loadFiles tree files = files.mapM (loadFile tree) := by
  induction files with
  | nil => rfl
  | cons path files inductionHypothesis =>
      rw [mapM_cons_eq, loadFiles, inductionHypothesis]
      cases loadFile tree path with
      | error error => rfl
      | ok document => cases files.mapM (loadFile tree) <;> rfl

end Files

/-- These are the documents of all files that the paths stand for. -/
def Loads (tree : FileTree) (extension : Text) (paths : List Path) (documents : List Document) : Prop :=
  ∃ files, Collects tree extension paths files ∧ List.Forall₂ (HoldsDocument tree) files documents

/-- A path that leads nowhere is reported before any file, and otherwise the first file that fails is. -/
inductive FailsToLoad (tree : FileTree) (extension : Text) (paths : List Path) : LoadError → Prop where
  | missing {before : List Path} {path : Path} {after : List Path} (split : paths = before ++ path :: after)
      (found : ∀ other ∈ before, tree.contains other = true) (nowhere : tree.contains path = false) :
      FailsToLoad tree extension paths (.missing path)
  | file {before : List Path} {path : Path} {after : List Path} {error : LoadError}
      (collected : Collects tree extension paths (before ++ path :: after))
      (loaded : ∀ other ∈ before, ∃ document, HoldsDocument tree other document)
      (fails : FileFails tree path error) : FailsToLoad tree extension paths error

section Load

variable {tree : FileTree} {extension : Text} {paths : List Path}

/-- Loading succeeds with exactly the documents of the files that the paths stand for. -/
theorem load_eq_ok_iff {documents : List Document} :
    load tree extension paths = .ok documents ↔ Loads tree extension paths documents := by
  have each (files : List Path) : loadFiles tree files = .ok documents ↔
      List.Forall₂ (HoldsDocument tree) files documents := by
    simp only [loadFiles_eq, mapM_eq_ok_iff, loadFile_eq_ok_iff]
  unfold load Loads
  simp only [← collect_eq_ok_iff, ← each]
  cases collect tree extension paths <;> simp

/-- Loading fails on the first path that leads nowhere or else on the first file that fails. -/
theorem load_eq_error_iff {error : LoadError} :
    load tree extension paths = .error error ↔ FailsToLoad tree extension paths error := by
  constructor
  · intro failed
    unfold load at failed
    split at failed
    · next collected =>
        cases failed
        obtain ⟨before, path, after, split, found, nowhere, rfl⟩ := collect_eq_error_iff.1 collected
        exact .missing split found nowhere
    · next collected =>
        rw [loadFiles_eq, mapM_eq_error_iff] at failed
        simp only [loadFile_eq_ok_iff, loadFile_eq_error_iff] at failed
        obtain ⟨before, path, after, rfl, loaded, fails⟩ := failed
        exact .file (collect_eq_ok_iff.1 collected) loaded fails
  · rintro (⟨split, found, nowhere⟩ | ⟨collected, loaded, fails⟩)
    · have failed : collect tree extension paths = .error (.missing _) :=
        collect_eq_error_iff.2 ⟨_, _, _, split, found, nowhere, rfl⟩
      rw [load, failed]
    · rw [load, collect_eq_ok_iff.2 collected]
      change loadFiles tree _ = .error error
      rw [loadFiles_eq, mapM_eq_error_iff]
      simp only [loadFile_eq_ok_iff, loadFile_eq_error_iff]
      exact ⟨_, _, _, rfl, loaded, fails⟩

end Load

end Loader

end FeatureLint
