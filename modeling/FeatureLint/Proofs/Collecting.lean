import FeatureLint.Proofs.Directories
import FeatureLint.Proofs.Loading

/-!
This file says which files are collected. A directory stands for exactly the files below it that have the
extension, in ascending order, and a tree may list the entries of its directories in any order. Main
statement: the files of all paths are collected in the order of the paths, whatever order the entries
have, and the first path that leads nowhere is reported.
-/

namespace FeatureLint

mutual

/-- Two entries are the same up to the order in which directories list their entries. -/
def Entry.Reordered : Entry → Entry → Prop
  | .file text?, .file other? => text? = other?
  | .directory listing, .directory other => Listing.Reordered listing other
  | .file _, .directory _ | .directory _, .file _ => False

/-- Each entry of a listing stands somewhere in a reordered one, and nothing else does. -/
def Listing.Reordered : Listing → Listing → Prop
  | [], other => other = []
  | (name, entry) :: rest, other =>
      ∃ before same after, other = before ++ (name, same) :: after ∧ entry.Reordered same ∧
        Listing.Reordered rest (before ++ after)

end

namespace Listing

/-- Reordering a listing keeps its names. -/
theorem Reordered.map_fst_perm {listing other : Listing} (reordered : listing.Reordered other) :
    (listing.map Prod.fst).Perm (other.map Prod.fst) := by
  induction listing generalizing other with
  | nil => rw [show other = [] from reordered]
  | cons named rest inductionHypothesis =>
      obtain ⟨name, entry⟩ := named
      obtain ⟨before, same, after, rfl, -, reorderedRest⟩ := reordered
      have further := inductionHypothesis reorderedRest
      rw [List.map_append] at further
      rw [List.map_cons, List.map_append, List.map_cons]
      exact (further.cons name).trans List.perm_middle.symm

/-- A name in the middle of a listing is found there. -/
theorem lookup?_middle (name known : Text) (entry : Entry) (before after : Listing)
    (fresh : known ∉ before.map Prod.fst) :
    lookup? name (before ++ (known, entry) :: after) =
      if known = name then some entry else lookup? name (before ++ after) := by
  induction before with
  | nil => rfl
  | cons named rest inductionHypothesis =>
      obtain ⟨first, own⟩ := named
      rw [List.map_cons, List.mem_cons, not_or] at fresh
      rw [List.cons_append, lookup?, inductionHypothesis fresh.2, List.cons_append, lookup?]
      by_cases here : first = name
      · subst here
        simp [fresh.1]
      · simp [here]

/-- A name stands for the same entry in a reordered listing. -/
theorem Reordered.lookup? {listing other : Listing} (reordered : listing.Reordered other)
    (distinct : (listing.map Prod.fst).Nodup) (name : Text) :
    Option.Rel Entry.Reordered (lookup? name listing) (lookup? name other) := by
  induction listing generalizing other with
  | nil =>
      rw [show other = [] from reordered]
      exact .none
  | cons named rest inductionHypothesis =>
      obtain ⟨known, entry⟩ := named
      obtain ⟨fresh, distinct⟩ := List.nodup_cons.1 distinct
      obtain ⟨before, same, after, rfl, reorderedEntry, reorderedRest⟩ := reordered
      have absent : known ∉ before.map Prod.fst := by
        rw [reorderedRest.map_fst_perm.mem_iff, List.map_append, List.mem_append, not_or] at fresh
        exact fresh.1
      rw [lookup?_middle _ _ _ _ _ absent, Listing.lookup?]
      split
      · exact .some reorderedEntry
      · exact inductionHypothesis reorderedRest distinct

end Listing

namespace Entry.Reordered

variable {entry other : Entry}

/-- A reordered entry is the same file or a reordered directory. -/
theorem file_or_directory (reordered : entry.Reordered other) :
    (∃ text?, entry = .file text? ∧ other = .file text?) ∨
      ∃ listing others, entry = .directory listing ∧ other = .directory others ∧
        Listing.Reordered listing others := by
  cases entry with
  | file text? =>
      cases other with
      | file other? => exact Or.inl ⟨text?, rfl, congrArg Entry.file reordered.symm⟩
      | directory others => cases reordered
  | directory listing =>
      cases other with
      | file other? => cases reordered
      | directory others => exact Or.inr ⟨listing, others, rfl, rfl, reordered⟩

/-- Reordered entries have reordered entries at every place. -/
theorem entryAt? (reordered : entry.Reordered other) (proper : entry.Proper) (place : Place) :
    Option.Rel Entry.Reordered (entry.entryAt? place) (other.entryAt? place) := by
  induction place generalizing entry other with
  | nil => cases entry <;> cases other <;> exact .some reordered
  | cons name rest inductionHypothesis =>
      obtain ⟨text?, rfl, rfl⟩ | ⟨listing, others, rfl, rfl, reordered⟩ := reordered.file_or_directory
      · exact .none
      · obtain ⟨distinct, each⟩ := (Listing.proper_iff listing).1 proper
        have named := reordered.lookup? distinct name
        rw [Entry.entryAt?, Entry.entryAt?, Listing.entryAt?_cons, Listing.entryAt?_cons]
        generalize Listing.lookup? name others = other? at named ⊢
        cases here : Listing.lookup? name listing with
        | none =>
            rw [here] at named
            cases named
            exact .none
        | some below =>
            rw [here] at named
            have member := (Listing.lookup?_eq_some_iff distinct).1 here
            cases named with
            | some reorderedBelow => exact inductionHypothesis reorderedBelow (each _ member).2

/-- Reordered entries have the same files. -/
theorem filesWith_perm (reordered : entry.Reordered other) (extension : Text) (base : Path) :
    (entry.filesWith extension base).Perm (other.filesWith extension base) := by
  induction entry using Entry.nested generalizing other base with
  | file text? =>
      obtain ⟨same?, ⟨⟩, rfl⟩ | ⟨listing, others, ⟨⟩, -⟩ := reordered.file_or_directory
      exact List.Perm.refl _
  | directory listing inductionHypothesis =>
      obtain ⟨same?, ⟨⟩, -⟩ | ⟨listing, others, ⟨⟩, rfl, listings⟩ := reordered.file_or_directory
      clear reordered
      rw [Entry.filesWith, Entry.filesWith, Listing.filesWith_eq_flatMap, Listing.filesWith_eq_flatMap]
      -- The first listing loses its head and the other one the same entry from its middle.
      induction listing generalizing others with
      | nil => rw [show others = [] from listings]
      | cons named rest inductionOnRest =>
          obtain ⟨name, entry⟩ := named
          obtain ⟨before, same, after, rfl, reorderedEntry, reorderedRest⟩ := listings
          obtain ⟨here, later⟩ := List.forall_mem_cons.1 inductionHypothesis
          refine ((here reorderedEntry _).append (inductionOnRest later _ reorderedRest)).trans ?_
          rw [List.flatMap_append, List.flatMap_append, List.flatMap_cons]
          exact List.perm_append_comm_assoc _ _ _

end Entry.Reordered

namespace FileTree

/-- Two trees are the same up to the order in which directories list their entries. -/
def Reordered (tree other : FileTree) : Prop :=
  tree.root.Reordered other.root ∧ tree.workingPlace = other.workingPlace

namespace Reordered

variable {tree other : FileTree}

/-- In a reordered tree the same places have reordered entries. -/
theorem entryAt? (reordered : tree.Reordered other) (proper : tree.Proper) (place : Place) :
    Option.Rel Entry.Reordered (tree.entryAt? place) (other.entryAt? place) := by
  have root : (Entry.directory tree.root).Reordered (.directory other.root) := reordered.1
  exact root.entryAt? proper place

/-- In a reordered tree the same places have the same contents. -/
theorem contentAt? (reordered : tree.Reordered other) (proper : tree.Proper) (place : Place) :
    other.contentAt? place = tree.contentAt? place := by
  have here := reordered.entryAt? proper place
  change (other.entryAt? place).map Entry.content = (tree.entryAt? place).map Entry.content
  generalize tree.entryAt? place = entry? at here ⊢
  generalize other.entryAt? place = same? at here ⊢
  cases here with
  | none => rfl
  | some same =>
      obtain ⟨text?, rfl, rfl⟩ | ⟨listing, others, rfl, rfl, -⟩ := same.file_or_directory <;> rfl

/-- In a reordered tree paths lead to the same places. -/
theorem follow (reordered : tree.Reordered other) (proper : tree.Proper) (start : Place)
    (pieces : List Text) : other.follow start pieces = tree.follow start pieces := by
  induction pieces generalizing start with
  | nil => rfl
  | cons piece pieces inductionHypothesis =>
      have stepped : other.step start piece = tree.step start piece := by
        rw [step_eq, step_eq, reordered.contentAt? proper, reordered.contentAt? proper]
      rw [FileTree.follow, FileTree.follow, stepped]
      cases tree.step start piece with
      | error cause => rfl
      | ok next => exact inductionHypothesis next

/-- A path leads to the same entry in a reordered tree, or nowhere in both trees. -/
theorem find (reordered : tree.Reordered other) (proper : tree.Proper) (path : Path) :
    (∃ entry same, tree.find path = .ok entry ∧ other.find path = .ok same ∧ entry.Reordered same) ∨
      ∃ error, tree.find path = .error error ∧ other.find path = .error error := by
  have sameStart : other.startOf path = tree.startOf path := by
    rw [startOf, startOf, reordered.2]
  unfold FileTree.find
  rw [sameStart, reordered.follow proper]
  split
  · exact Or.inr ⟨_, rfl, rfl⟩
  · cases tree.follow (tree.startOf path) (Text.cutAt '/' path.text) with
    | error error => exact Or.inr ⟨error, rfl, rfl⟩
    | ok place =>
        have here := reordered.entryAt? proper place
        simp only []
        generalize tree.entryAt? place = entry? at here ⊢
        generalize other.entryAt? place = same? at here ⊢
        cases here with
        | none => exact Or.inr ⟨_, rfl, rfl⟩
        | some same => exact Or.inl ⟨_, _, rfl, rfl, same⟩

end Reordered

end FileTree

/-- A listing of a directory holds the files at all places below it, and their paths lead on from the
path of the directory. -/
def Listing.HoldsFile (extension : Text) (listing : Listing) (directory file : Path) : Prop :=
  file.extension? = some extension ∧
    ∃ place text?, entryAt? place listing = some (.file text?) ∧
      file = directory.join ⟨Text.joinWith ['/'] place⟩

/-- The files that are collected are exactly those with the extension at some place below. -/
theorem Listing.mem_filesWith_iff {listing : Listing} (proper : listing.Proper) {extension : Text}
    {directory : Path} (present : directory.text ≠ []) (file : Path) :
    file ∈ filesWith extension directory listing ↔ listing.HoldsFile extension directory file := by
  have properEntry : (Entry.directory listing).Proper := proper
  have joined {place : Place} {text? : Option Text} (here : entryAt? place listing = some (.file text?)) :
      directory.below place = directory.join ⟨Text.joinWith ['/'] place⟩ := by
    have nonempty : place ≠ [] := by
      rintro rfl
      cases here
    exact Path.below_eq_join present nonempty (Entry.proper_of_entryAt? properEntry here).1
  have gathered : file ∈ (Entry.directory listing).filesWith extension directory ↔ _ :=
    Entry.mem_filesWith_iff properEntry directory file
  rw [Entry.filesWith] at gathered
  rw [gathered, HoldsFile]
  refine and_congr_right fun _ => ⟨?_, ?_⟩
  · rintro ⟨place, text?, here, rfl⟩
    exact ⟨place, text?, here, joined here⟩
  · rintro ⟨place, text?, here, rfl⟩
    exact ⟨place, text?, here, (joined here).symm⟩

namespace Loader

variable {tree other : FileTree} {extension : Text} {path : Path}

/-- A path to a file gathers that file, whatever its extension, and a path to a directory gathers the
files below it in strictly ascending order. -/
inductive Gathers (tree : FileTree) (extension : Text) (path : Path) : List Path → Prop where
  | file {text? : Option Text} (found : tree.find path = .ok (.file text?)) :
      Gathers tree extension path [path]
  | directory {listing : Listing} {files : List Path} (found : tree.find path = .ok (.directory listing))
      (holds : ∀ file, file ∈ files ↔ listing.HoldsFile extension path file)
      (ascends : files.Pairwise Path.Before) : Gathers tree extension path files

/-- Sorting brings files with different components in strictly ascending order. -/
theorem pairwise_before_mergeSort {files : List Path}
    (apart : files.Pairwise fun one other => one.components ≠ other.components) :
    (files.mergeSort Path.le).Pairwise Path.Before := by
  have ascends := pairwise_mergeSort_key Path.le_iff files
  have apart := (List.mergeSort_perm files Path.le).symm.pairwise apart fun unequal => unequal.symm
  refine (ascends.and apart).imp fun {first second} both => ?_
  rw [Ne, ← Path.rank_eq_iff] at both
  exact (Path.before_iff _ _).2 (lt_of_le_of_ne both.1 both.2)

/-- The files that a path stands for are gathered. -/
theorem gathers_of_standsFor (proper : tree.Proper) {files : List Path}
    (stands : StandsFor tree extension path files) : Gathers tree extension path files := by
  cases stands with
  | file found => exact .file found
  | directory found =>
      have present := FileTree.text_ne_nil_of_find found
      have properEntry := proper.of_find found
      refine .directory found (fun file => ?_) ?_
      · rw [List.mem_mergeSort]
        exact Listing.mem_filesWith_iff properEntry present file
      · exact pairwise_before_mergeSort (Entry.pairwise_components_filesWith properEntry present)

/-- Files with different components are sorted into one order, wherever they stood before. -/
theorem mergeSort_eq_of_perm {files others : List Path} (reordered : files.Perm others)
    (apart : files.Pairwise fun one other => one.components ≠ other.components) :
    others.mergeSort Path.le = files.mergeSort Path.le := by
  have same : (others.mergeSort Path.le).Perm (files.mergeSort Path.le) :=
    (List.mergeSort_perm others _).trans (reordered.symm.trans (List.mergeSort_perm files _).symm)
  have apartToo := reordered.pairwise apart fun unequal => unequal.symm
  -- Two strictly ascending lists of the same files are equal, since no two files come before each other.
  refine same.eq_of_pairwise (fun first second _ _ one another => ?_) (pairwise_before_mergeSort apartToo)
    (pairwise_before_mergeSort apart)
  rw [Path.before_iff] at one another
  exact absurd (one.trans another) (lt_irrefl _)

/-- In a reordered tree a path gives the same files in the same order. -/
theorem filesAt_of_reordered (reordered : tree.Reordered other) (proper : tree.Proper) :
    filesAt other extension path = filesAt tree extension path := by
  unfold filesAt
  obtain ⟨entry, same, found, foundToo, entries⟩ | ⟨error, nowhere, nowhereToo⟩ :=
    reordered.find proper path
  · rw [found, foundToo]
    have sameFiles := mergeSort_eq_of_perm (entries.filesWith_perm extension path)
      (Entry.pairwise_components_filesWith (proper.of_find found) (FileTree.text_ne_nil_of_find found))
    obtain ⟨text?, rfl, rfl⟩ | ⟨listing, others, rfl, rfl, -⟩ := entries.file_or_directory
    · rfl
    · exact congrArg Except.ok sameFiles
  · rw [nowhere, nowhereToo]

/-- Every item is related to some result. -/
theorem exists_mem_of_forall₂ {Item Result : Type} {relation : Item → Result → Prop} {items : List Item}
    {results : List Result} (related : List.Forall₂ relation items results) {item : Item}
    (member : item ∈ items) : ∃ result ∈ results, relation item result := by
  induction related with
  | nil => cases member
  | cons here _ inductionHypothesis =>
      rcases List.mem_cons.1 member with rfl | later
      · exact ⟨_, List.mem_cons_self, here⟩
      · obtain ⟨result, known, there⟩ := inductionHypothesis later
        exact ⟨result, List.mem_cons_of_mem _ known, there⟩

/-- Files can be collected exactly when every path leads somewhere. -/
theorem exists_collect_iff {paths : List Path} :
    (∃ files, collect tree extension paths = .ok files) ↔ ∀ path ∈ paths, tree.contains path = true := by
  constructor
  · rintro ⟨files, collected⟩ path member
    obtain ⟨groups, stand, -⟩ := collect_eq_ok_iff.1 collected
    obtain ⟨group, -, standsFor⟩ := exists_mem_of_forall₂ stand member
    exact exists_filesAt_iff.1 ⟨group, filesAt_eq_ok_iff.2 standsFor⟩
  · intro exist
    cases collected : collect tree extension paths with
    | ok files => exact ⟨files, rfl⟩
    | error error =>
        obtain ⟨before, path, after, rfl, -, nowhere, -⟩ := collect_eq_error_iff.1 collected
        have found := exist path List.mem_append_cons_self
        rw [nowhere] at found
        cases found

/-- All files are collected in the order of the paths and, for each directory, in the order of their
components. Collecting does not depend on the order in which directories list their entries, and it fails
with the first path that leads nowhere. -/
theorem collect_gathers_every_file (tree : FileTree) (proper : tree.Proper) (extension : Text)
    (paths : List Path) :
    ((∀ path ∈ paths, tree.contains path = true) →
      ∃ groups, List.Forall₂ (Gathers tree extension) paths groups ∧
        collect tree extension paths = .ok groups.flatten) ∧
    (∀ other, tree.Reordered other → collect other extension paths = collect tree extension paths) ∧
    ∀ before path after, paths = before ++ path :: after →
      (∀ earlier ∈ before, tree.contains earlier = true) → tree.contains path = false →
        collect tree extension paths = .error (.missing path) := by
  refine ⟨fun exist => ?_, fun other reordered => ?_, fun before path after split found nowhere => ?_⟩
  · obtain ⟨files, collected⟩ := exists_collect_iff.2 exist
    obtain ⟨groups, stand, rfl⟩ := collect_eq_ok_iff.1 collected
    exact ⟨groups, stand.imp fun _ _ => gathers_of_standsFor proper, collected⟩
  · have same : filesAt other extension = filesAt tree extension := by
      funext path
      exact filesAt_of_reordered reordered proper
    rw [collect_eq, collect_eq, same]
  · exact collect_eq_error_iff.2 ⟨before, path, after, split, found, nowhere, rfl⟩

/-- A directory comes before a file whose name goes on where its own ends, a directory may have the
extension of a file, and a file that is named is taken whatever its extension is. -/
theorem collect_gathers_every_file_from_nested_directories :
    let path (text : String) : Path := ⟨text.toList⟩
    let inner : Text × Entry := ("a".toList, .directory [("c.feature".toList, .file none)])
    let listed : Text × Entry := ("a-b.feature".toList, .file (some []))
    let empty : Text × Entry := ("d.feature".toList, .directory [])
    let notes : Text × Entry := ("notes".toList, .file (some []))
    let tree : FileTree := ⟨[("x".toList, .directory [notes, listed, empty, inner])], []⟩
    let other : FileTree := ⟨[("x".toList, .directory [inner, empty, listed, notes])], []⟩
    let paths := [path "x", path "x/notes"]
    collect tree "feature".toList paths =
        .ok [path "x/a/c.feature", path "x/a-b.feature", path "x/notes"] ∧
      collect other "feature".toList paths = collect tree "feature".toList paths ∧
      (∃ groups, List.Forall₂ (Gathers tree "feature".toList) paths groups ∧
        collect tree "feature".toList paths = .ok groups.flatten) ∧
      collect tree "feature".toList [path "x", path "y", path "z"] = .error (.missing (path "y")) := by
  intro path inner listed empty notes tree other paths
  have proper : tree.Proper := by
    simp [FileTree.Proper, tree, inner, listed, empty, notes, Listing.Proper, Entry.Proper, Path.IsName]
  have reordered : tree.Reordered other := by
    refine ⟨⟨[], _, [], rfl, ?_, rfl⟩, rfl⟩
    refine ⟨[inner, empty, listed], _, [], rfl, rfl, ?_⟩
    refine ⟨[inner, empty], _, [], rfl, rfl, ?_⟩
    refine ⟨[inner], _, [], rfl, rfl, ?_⟩
    exact ⟨[], _, [], rfl, ⟨[], _, [], rfl, rfl, rfl⟩, rfl⟩
  have gathered : Listing.filesWith "feature".toList (path "x") [inner, empty, listed, notes] =
      [path "x/a/c.feature", path "x/a-b.feature"] := by
    decide +kernel
  have sorted : (Listing.filesWith "feature".toList (path "x")
      [inner, empty, listed, notes]).mergeSort Path.le = [path "x/a/c.feature", path "x/a-b.feature"] := by
    rw [gathered]
    exact List.mergeSort_of_pairwise (by decide +kernel)
  have first : StandsFor other "feature".toList (path "x") [path "x/a/c.feature", path "x/a-b.feature"] :=
    sorted ▸ .directory rfl
  have collected : collect other "feature".toList paths =
      .ok [path "x/a/c.feature", path "x/a-b.feature", path "x/notes"] :=
    collect_eq_ok_iff.2 ⟨_, .cons first (.cons (.file rfl) .nil), rfl⟩
  have same : collect other "feature".toList paths = collect tree "feature".toList paths :=
    (collect_gathers_every_file tree proper _ paths).2.1 other reordered
  refine ⟨same.symm.trans collected, same, ?_, ?_⟩
  · exact (collect_gathers_every_file tree proper _ paths).1 (by decide)
  · exact (collect_gathers_every_file tree proper _ _).2.2 [path "x"] _ _ rfl (by decide) (by decide)

end Loader

end FeatureLint
