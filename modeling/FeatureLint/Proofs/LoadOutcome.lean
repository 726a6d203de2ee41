import FeatureLint.Proofs.Collecting
import FeatureLint.Proofs.Isolation

/-!
This file says what loading feature files comes to. Every file that is collected is there, so that it can
only fail to have a text or to be parsed. Main statement: the first path that leads nowhere is reported
before any file, then the first file that fails, and otherwise all documents are loaded.
-/

namespace FeatureLint

namespace FileTree

variable {tree : FileTree} {path : Path}

/-- A text is read exactly from a file that has one. -/
theorem readText_eq_ok_iff {text : Text} :
    tree.readText path = .ok text ↔ tree.find path = .ok (.file (some text)) := by
  unfold readText
  cases tree.find path with
  | error cause => simp
  | ok entry =>
      cases entry with
      | directory listing => simp
      | file text? => cases text? <;> simp

/-- A file that is there is unreadable exactly when it has no text. -/
theorem readText_eq_error_iff {text? : Option Text} (found : tree.find path = .ok (.file text?))
    {cause : FileError} : tree.readText path = .error cause ↔ text? = none ∧ cause = .notText := by
  unfold readText
  rw [found]
  cases text? <;> simp [eq_comm]

end FileTree

namespace Loader

variable {tree : FileTree} {extension : Text} {paths : List Path}

/-- A file is a document when it has a text that is parsed into the document of that path. -/
def IsDocument (tree : FileTree) (file : Path) (document : Document) : Prop :=
  document.path? = some file ∧
    ∃ text, tree.find file = .ok (.file (some text)) ∧ Document.parse file text = .ok document

/-- Loading comes to one of four ends. A path that leads nowhere is reported first, whatever the other
paths stand for, and then the first of the collected files that has no text or is no document. -/
inductive LoadsTo (tree : FileTree) (extension : Text) (paths : List Path) :
    Except LoadError (List Document) → Prop where
  | missing {before after : List Path} {path : Path} (split : paths = before ++ path :: after)
      (found : ∀ earlier ∈ before, tree.contains earlier = true) (nowhere : tree.contains path = false) :
      LoadsTo tree extension paths (.error (.missing path))
  | notText {before after : List Path} {file : Path}
      (collected : collect tree extension paths = .ok (before ++ file :: after))
      (loaded : ∀ earlier ∈ before, ∃ document, IsDocument tree earlier document)
      (found : tree.find file = .ok (.file none)) :
      LoadsTo tree extension paths (.error (.unreadable file .notText))
  | malformed {before after : List Path} {file : Path} {text : Text} {error : ParseError}
      (collected : collect tree extension paths = .ok (before ++ file :: after))
      (loaded : ∀ earlier ∈ before, ∃ document, IsDocument tree earlier document)
      (found : tree.find file = .ok (.file (some text))) (fails : Document.parse file text = .error error) :
      LoadsTo tree extension paths (.error (.malformed file text error))
  | documents {files : List Path} {documents : List Document}
      (collected : collect tree extension paths = .ok files)
      (loaded : List.Forall₂ (IsDocument tree) files documents) :
      LoadsTo tree extension paths (.ok documents)

/-- A file holds a document exactly when its text is one. -/
theorem holdsDocument_iff {file : Path} {document : Document} :
    HoldsDocument tree file document ↔ IsDocument tree file document := by
  rw [HoldsDocument, IsDocument]
  simp only [FileTree.readText_eq_ok_iff]
  constructor
  · rintro ⟨text, found, parsed⟩
    exact ⟨(Document.keepsTo_of_parse parsed).root, text, found, parsed⟩
  · rintro ⟨-, text, found, parsed⟩
    exact ⟨text, found, parsed⟩

/-- Every file that is collected is there. -/
theorem exists_find_of_mem_collect (proper : tree.Proper) {files : List Path} {file : Path}
    (collected : collect tree extension paths = .ok files) (member : file ∈ files) :
    ∃ text?, tree.find file = .ok (.file text?) := by
  obtain ⟨groups, stand, rfl⟩ := collect_eq_ok_iff.1 collected
  obtain ⟨group, known, inside⟩ := List.mem_flatten.1 member
  obtain ⟨path, -, standsFor⟩ := exists_mem_of_forall₂ stand.flip known
  cases standsFor with
  | file found =>
      rw [List.mem_singleton.1 inside]
      exact ⟨_, found⟩
  | directory found =>
      rw [List.mem_mergeSort] at inside
      exact FileTree.exists_find_of_mem_filesWith (proper.of_find found) found inside

/-- Every failure to load is an outcome of the relation. -/
theorem loadsTo_of_failsToLoad (proper : tree.Proper) {error : LoadError}
    (fails : FailsToLoad tree extension paths error) : LoadsTo tree extension paths (.error error) := by
  cases fails with
  | missing split found nowhere => exact .missing split found nowhere
  | file collected loaded fails =>
      rw [← collect_eq_ok_iff] at collected
      simp only [holdsDocument_iff] at loaded
      cases fails with
      | unreadable read =>
          -- The file is there, so that nothing but its bytes can have failed.
          obtain ⟨text?, found⟩ := exists_find_of_mem_collect proper collected List.mem_append_cons_self
          obtain ⟨rfl, rfl⟩ := (FileTree.readText_eq_error_iff found).1 read
          exact .notText collected loaded found
      | malformed read fails =>
          exact .malformed collected loaded (FileTree.readText_eq_ok_iff.1 read) fails

/-- Every outcome of the relation is what the loader returns. -/
theorem load_eq_of_loadsTo {result : Except LoadError (List Document)}
    (loadsTo : LoadsTo tree extension paths result) : load tree extension paths = result := by
  cases loadsTo with
  | missing split found nowhere => exact load_eq_error_iff.2 (.missing split found nowhere)
  | notText collected loaded found =>
      simp only [← holdsDocument_iff] at loaded
      have read := (FileTree.readText_eq_error_iff found).2 ⟨rfl, rfl⟩
      exact load_eq_error_iff.2 (.file (collect_eq_ok_iff.1 collected) loaded (.unreadable read))
  | malformed collected loaded found fails =>
      simp only [← holdsDocument_iff] at loaded
      have read := FileTree.readText_eq_ok_iff.2 found
      exact load_eq_error_iff.2 (.file (collect_eq_ok_iff.1 collected) loaded (.malformed read fails))
  | documents collected loaded =>
      exact load_eq_ok_iff.2
        ⟨_, collect_eq_ok_iff.1 collected, loaded.imp fun _ _ => holdsDocument_iff.2⟩

/-- In a proper tree the loader returns exactly the outcome of the relation. -/
theorem load_eq_iff_loadsTo (proper : tree.Proper) (result : Except LoadError (List Document)) :
    load tree extension paths = result ↔ LoadsTo tree extension paths result := by
  refine ⟨fun outcome => ?_, load_eq_of_loadsTo⟩
  cases result with
  | error error => exact loadsTo_of_failsToLoad proper (load_eq_error_iff.1 outcome)
  | ok documents =>
      obtain ⟨files, collects, loaded⟩ := load_eq_ok_iff.1 outcome
      exact .documents (collect_eq_ok_iff.2 collects) (loaded.imp fun _ _ => holdsDocument_iff.1)

/-- Loading succeeds when no collected file fails. -/
theorem exists_load_of_collect (proper : tree.Proper) {files : List Path}
    (collected : collect tree extension paths = .ok files)
    (parsed : ∀ file ∈ files, ∃ document, IsDocument tree file document) :
    ∃ documents, load tree extension paths = .ok documents := by
  cases outcome : load tree extension paths with
  | ok documents => exact ⟨documents, rfl⟩
  | error error =>
      cases (load_eq_iff_loadsTo proper _).1 outcome with
      | missing split found nowhere =>
          have exist := exists_collect_iff.1 ⟨files, collected⟩ _ (split ▸ List.mem_append_cons_self)
          rw [nowhere] at exist
          cases exist
      | notText collectedToo _ found =>
          cases collected.symm.trans collectedToo
          obtain ⟨_, -, text, foundToo, -⟩ := parsed _ List.mem_append_cons_self
          cases found.symm.trans foundToo
      | malformed collectedToo _ found fails =>
          cases collected.symm.trans collectedToo
          obtain ⟨_, -, text, foundToo, parsed⟩ := parsed _ List.mem_append_cons_self
          cases found.symm.trans foundToo
          cases fails.symm.trans parsed

/-- Loading comes to the end that the paths and the files determine, and it succeeds exactly when every
path leads somewhere and every collected file is a document. -/
theorem load_reports_first_failure (tree : FileTree) (proper : tree.Proper) (extension : Text)
    (paths : List Path) :
    (∀ result, load tree extension paths = result ↔ LoadsTo tree extension paths result) ∧
    ((∃ documents, load tree extension paths = .ok documents) ↔
      (∀ path ∈ paths, tree.contains path = true) ∧
        ∀ files, collect tree extension paths = .ok files →
          ∀ file ∈ files, ∃ document, IsDocument tree file document) := by
  refine ⟨load_eq_iff_loadsTo proper, ?_, ?_⟩
  · rintro ⟨documents, loads⟩
    cases load_eq_iff_loadsTo proper _ |>.1 loads with
    | documents collected loaded =>
        refine ⟨exists_collect_iff.1 ⟨_, collected⟩, fun files collectedToo file member => ?_⟩
        cases collected.symm.trans collectedToo
        obtain ⟨document, -, isDocument⟩ := exists_mem_of_forall₂ loaded member
        exact ⟨document, isDocument⟩
  · rintro ⟨exist, parsed⟩
    obtain ⟨files, collected⟩ := exists_collect_iff.2 exist
    exact exists_load_of_collect proper collected (parsed files collected)

/-- Files that fail in different ways compete with each other and with a path that leads nowhere. -/
theorem load_reports_first_failure_of_three :
    let good : Path := ⟨"good".toList⟩
    let bytes : Path := ⟨"bytes".toList⟩
    let broken : Path := ⟨"broken".toList⟩
    let nowhere : Path := ⟨"nowhere".toList⟩
    let text := "Feature: F\nFeature: G\n".toList
    let tree : FileTree := ⟨[(good.text, .file (some "Feature: F\n".toList)), (bytes.text, .file none),
      (broken.text, .file (some text))], []⟩
    let document := Document.ofFeature good (some ⟨1, "F".toList, [], []⟩)
    load tree [] [good, good] = .ok [document, document] ∧
      load tree [] [good, bytes, broken] = .error (.unreadable bytes .notText) ∧
      load tree [] [good, broken, bytes] = .error (.malformed broken text ⟨.duplicateFeature, 2, ⟨11, 21⟩⟩) ∧
      load tree [] [broken, bytes, nowhere] = .error (.missing nowhere) ∧
      ¬∃ documents, load tree [] [nowhere] = .ok documents := by
  intro good bytes broken nowhere text tree document
  have proper : tree.Proper := by
    simp [FileTree.Proper, tree, good, bytes, broken, Listing.Proper, Entry.Proper, Path.IsName]
  have parsed : Document.parse good "Feature: F\n".toList = .ok document := by
    with_unfolding_all rfl
  have isDocument : IsDocument tree good document := ⟨rfl, _, rfl, parsed⟩
  have loaded : ∀ earlier ∈ [good], ∃ document, IsDocument tree earlier document :=
    List.forall_mem_singleton.2 ⟨document, isDocument⟩
  refine ⟨?_, ?_, ?_, ?_, ?_⟩
  · apply ((load_reports_first_failure tree proper [] _).1 _).2
    exact .documents rfl (.cons isDocument (.cons isDocument .nil))
  · apply ((load_reports_first_failure tree proper [] _).1 _).2
    exact .notText rfl loaded rfl
  · apply ((load_reports_first_failure tree proper [] _).1 _).2
    exact .malformed rfl loaded rfl (by with_unfolding_all rfl)
  · have last : [broken, bytes, nowhere] = [broken, bytes] ++ nowhere :: [] := rfl
    apply ((load_reports_first_failure tree proper [] _).1 _).2
    exact .missing last (by decide) rfl
  · rw [(load_reports_first_failure tree proper [] [nowhere]).2]
    rintro ⟨exist, -⟩
    cases exist nowhere List.mem_cons_self

end Loader

end FeatureLint
