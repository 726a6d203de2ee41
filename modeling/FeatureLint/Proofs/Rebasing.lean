import FeatureLint.Proofs.Collecting
import FeatureLint.Proofs.Renaming

/-!
This file looks at one directory from two paths that lead to it. The files below the directory are told by their
places, and each path makes file names of its own from them. Main statement: the files are collected in the same
order from both paths, and they are loaded alike.
-/

namespace FeatureLint

namespace Path

/-- The components of a path below a base are those of the base and then the names. -/
theorem components_below {base : Path} {place : Place} (present : base.text ≠ [])
    (names : ∀ name ∈ place, IsName name) :
    (base.below place).components = base.components ++ place.map .name := by
  induction place generalizing base with
  | nil => exact (List.append_nil _).symm
  | cons name rest inductionHypothesis =>
      obtain ⟨isName, names⟩ := List.forall_mem_cons.1 names
      have later := inductionHypothesis (text_join_ne_nil present isName.relative) names
      rw [isName.components_join present, List.append_assoc] at later
      exact later

/-- The extension of a joined path is that of its last name. -/
theorem extension?_join {base : Path} {name : Text} (present : base.text ≠ []) (isName : IsName name) :
    (base.join ⟨name⟩).extension? = extensionOfName? name := by
  rw [extension?, isName.components_join present, List.getLast?_concat]

/-- Two paths are rebased when they lead from two bases to the same place. -/
def Rebased (first second path other : Path) : Prop :=
  ∃ place, place ≠ [] ∧ (∀ name ∈ place, IsName name) ∧ path = first.below place ∧ other = second.below place

section Bases

variable {first second : Path} (present : first.text ≠ []) (presentToo : second.text ≠ [])

include present presentToo

/-- Moving files from one base to another keeps different files apart. -/
theorem keepsApart_rebased : KeepsApart (Rebased first second) := by
  rintro _ _ _ _ ⟨one, -, names, rfl, rfl⟩ ⟨other, -, namesToo, rfl, rfl⟩
  rw [components_below present names, components_below present namesToo, components_below presentToo names,
    components_below presentToo namesToo, List.append_cancel_left_eq, List.append_cancel_left_eq]

/-- The order of files in a directory does not depend on the path of the directory. -/
theorem le_below {one other : Place} (names : ∀ name ∈ one, IsName name)
    (namesToo : ∀ name ∈ other, IsName name) :
    (first.below one).le (first.below other) = (second.below one).le (second.below other) := by
  have behind (front left right : List (List Nat)) : front ++ left ≤ front ++ right ↔ left ≤ right := by
    rw [← not_lt, ← not_lt, not_iff_not]
    induction front with
    | nil => rfl
    | cons _ _ inductionHypothesis => exact List.cons_lt_cons_self.trans inductionHypothesis
  rw [Bool.eq_iff_iff, le_iff, le_iff]
  simp only [rank, components_below present names, components_below present namesToo,
    components_below presentToo names, components_below presentToo namesToo, List.map_append, behind]

end Bases

/-- One path goes on behind the first base as the other one does behind the second. -/
def SameRest (first second path other : Path) : Prop :=
  ∃ rest, path.text = first.text ++ rest ∧ other.text = second.text ++ rest

/-- Rebased paths differ only in their bases. -/
theorem Rebased.sameRest {first second path other : Path} (present : first.text ≠ [])
    (presentToo : second.text ≠ []) (unended : first.text.getLast? ≠ some '/')
    (unendedToo : second.text.getLast? ≠ some '/') (rebased : Rebased first second path other) :
    SameRest first second path other := by
  obtain ⟨place, nonempty, names, rfl, rfl⟩ := rebased
  have relative : isAbsolute ⟨Text.joinWith ['/'] place⟩ = false := by
    obtain ⟨name, rest, rfl⟩ := List.exists_cons_of_ne_nil nonempty
    have isName := names name List.mem_cons_self
    apply isName.relative_of_head?
    cases rest with
    | nil => rfl
    | cons second others => simp [Text.joinWith, List.head?_append_of_ne_nil _ isName.1]
  refine ⟨'/' :: Text.joinWith ['/'] place, ?_, ?_⟩
  · rw [below_eq_join present nonempty names, text_join present relative, if_neg unended, List.append_assoc]
    rfl
  · rw [below_eq_join presentToo nonempty names, text_join presentToo relative, if_neg unendedToo,
      List.append_assoc]
    rfl

end Path

mutual

/-- These are the places of the files with the given extension at and below an entry of the given name. -/
def Entry.placesWith (extension name : Text) : Entry → List Place
  | .file _ => if Path.extensionOfName? name = some extension then [[]] else []
  | .directory listing => Listing.placesWith extension listing

/-- These are the places of the files with the given extension in a directory and below it. -/
def Listing.placesWith (extension : Text) : Listing → List Place
  | [] => []
  | (name, entry) :: rest =>
      (entry.placesWith extension name).map (name :: ·) ++ Listing.placesWith extension rest

end

/-- The places in a listing are those in its entries. -/
theorem Listing.placesWith_eq_flatMap (extension : Text) (listing : Listing) :
    placesWith extension listing =
      listing.flatMap fun named => (named.2.placesWith extension named.1).map (named.1 :: ·) := by
  induction listing with
  | nil => rfl
  | cons named rest inductionHypothesis =>
      obtain ⟨name, entry⟩ := named
      rw [placesWith, inductionHypothesis, List.flatMap_cons]

/-- The files in a listing stand at its places when this holds for each entry. -/
theorem Listing.filesWith_eq_map_of_forall {extension : Text} {listing : Listing} {base : Path}
    (each : ∀ named ∈ listing, named.2.filesWith extension (base.join ⟨named.1⟩) =
      (named.2.placesWith extension named.1).map (base.join ⟨named.1⟩).below) :
    filesWith extension base listing = (placesWith extension listing).map base.below := by
  rw [filesWith_eq_flatMap, placesWith_eq_flatMap, List.map_flatMap]
  apply List.flatMap_congr
  intro named member
  rw [each named member, List.map_map]
  rfl

/-- The files in an entry stand at its places below the path of the entry. -/
theorem Entry.filesWith_eq_map {extension name : Text} {entry : Entry} (proper : entry.Proper)
    (isName : Path.IsName name) {base : Path} (present : base.text ≠ []) :
    entry.filesWith extension (base.join ⟨name⟩) =
      (entry.placesWith extension name).map (base.join ⟨name⟩).below := by
  induction entry using Entry.nested generalizing base name with
  | file text? =>
      rw [filesWith, placesWith, Path.extension?_join present isName]
      split <;> rfl
  | directory listing inductionHypothesis =>
      obtain ⟨-, each⟩ := (Listing.proper_iff listing).1 proper
      rw [filesWith, placesWith]
      apply Listing.filesWith_eq_map_of_forall
      intro named member
      obtain ⟨isNameBelow, properBelow⟩ := each named member
      exact inductionHypothesis named member properBelow isNameBelow
        (Path.text_join_ne_nil present isName.relative)

/-- The files below a directory are those at the places of the directory, whatever path leads to it. -/
theorem Listing.filesWith_eq_map {extension : Text} {listing : Listing} (proper : listing.Proper)
    {base : Path} (present : base.text ≠ []) :
    filesWith extension base listing = (placesWith extension listing).map base.below := by
  obtain ⟨-, each⟩ := (proper_iff listing).1 proper
  apply filesWith_eq_map_of_forall
  intro named member
  obtain ⟨isName, properBelow⟩ := each named member
  exact Entry.filesWith_eq_map properBelow isName present

/-- At each of the places there is a file. -/
theorem Entry.exists_file_of_mem_placesWith {extension name : Text} {entry : Entry} (proper : entry.Proper)
    {place : Place} (member : place ∈ entry.placesWith extension name) :
    ∃ text?, entry.entryAt? place = some (.file text?) := by
  induction entry using Entry.nested generalizing place name with
  | file text? =>
      rw [placesWith, List.mem_ite_nil_right, List.mem_singleton] at member
      rw [member.2]
      exact ⟨text?, rfl⟩
  | directory listing inductionHypothesis =>
      obtain ⟨distinct, each⟩ := (Listing.proper_iff listing).1 proper
      rw [placesWith, Listing.placesWith_eq_flatMap, List.mem_flatMap] at member
      obtain ⟨named, listed, inside⟩ := member
      obtain ⟨rest, known, rfl⟩ := List.mem_map.1 inside
      obtain ⟨text?, found⟩ := inductionHypothesis named listed (each named listed).2 known
      refine ⟨text?, ?_⟩
      rw [entryAt?, Listing.entryAt?_cons, (Listing.lookup?_eq_some_iff distinct).2 listed]
      exact found

/-- The files of a directory stand at places below it that are made of names. -/
theorem Listing.exists_file_of_mem_placesWith {extension : Text} {listing : Listing} (proper : listing.Proper)
    {place : Place} (member : place ∈ placesWith extension listing) :
    place ≠ [] ∧ (∀ name ∈ place, Path.IsName name) ∧
      ∃ text?, entryAt? place listing = some (.file text?) := by
  have properEntry : (Entry.directory listing).Proper := proper
  have known : place ∈ (Entry.directory listing).placesWith extension [] := by
    rwa [Entry.placesWith]
  obtain ⟨text?, found⟩ := Entry.exists_file_of_mem_placesWith properEntry known
  refine ⟨?_, (Entry.proper_of_entryAt? properEntry found).1, text?, found⟩
  rintro rfl
  cases found

/-- What stands below an entry is found behind the path of the entry. -/
theorem FileTree.find_below {tree : FileTree} {path : Path} {entry found : Entry} {place : Place}
    (here : tree.find path = .ok entry) (names : ∀ name ∈ place, Path.IsName name)
    (there : entry.entryAt? place = some found) : tree.find (path.below place) = .ok found := by
  induction place generalizing path entry with
  | nil =>
      cases entry <;> cases there <;> exact here
  | cons name rest inductionHypothesis =>
      obtain ⟨isName, names⟩ := List.forall_mem_cons.1 names
      cases entry with
      | file text? => cases there
      | directory listing =>
          rw [Entry.entryAt?, Listing.entryAt?_cons, Option.bind_eq_some_iff] at there
          obtain ⟨inner, known, there⟩ := there
          exact inductionHypothesis (find_join here isName known) names there

/-- A new name comes last in a listing. -/
theorem Listing.set_eq_append {name : Text} {listing : Listing} (free : lookup? name listing = none)
    (entry : Entry) : set name entry listing = listing ++ [(name, entry)] := by
  induction listing with
  | nil => rfl
  | cons named rest inductionHypothesis =>
      obtain ⟨known, old⟩ := named
      rw [lookup?] at free
      split at free
      · cases free
      · next other => rw [set, if_neg other, inductionHypothesis free, List.cons_append]

/-- A file without the extension adds nothing to the files of a directory that had no entry of its name. -/
theorem Listing.placesWith_set {extension name : Text} {listing : Listing} {text? : Option Text}
    (free : lookup? name listing = none) (other : Path.extensionOfName? name ≠ some extension) :
    placesWith extension (set name (.file text?) listing) = placesWith extension listing := by
  rw [set_eq_append free, placesWith_eq_flatMap, placesWith_eq_flatMap, List.flatMap_append,
    List.flatMap_singleton, Entry.placesWith, if_neg other, List.map_nil, List.append_nil]

/-- A new name hides nothing. -/
theorem Listing.entryAt?_set {name : Text} {listing : Listing} {entry found : Entry} {place : Place}
    (free : lookup? name listing = none) (below : place ≠ []) (here : entryAt? place listing = some found) :
    entryAt? place (set name entry listing) = some found := by
  obtain ⟨first, rest, rfl⟩ := List.exists_cons_of_ne_nil below
  rw [entryAt?_cons, Option.bind_eq_some_iff] at here
  obtain ⟨inner, known, here⟩ := here
  have apart : first ≠ name := by
    rintro rfl
    rw [free] at known
    cases known
  rw [entryAt?_cons, lookup?_set, if_neg apart, known]
  exact here

/-- A new file keeps a listing proper. -/
theorem Listing.proper_set {name : Text} {listing : Listing} {text? : Option Text} (proper : listing.Proper)
    (isName : Path.IsName name) (free : lookup? name listing = none) :
    (set name (.file text?) listing).Proper := by
  obtain ⟨distinct, each⟩ := (proper_iff listing).1 proper
  have fresh : name ∉ listing.map Prod.fst := by
    intro member
    obtain ⟨⟨_, entry⟩, listed, rfl⟩ := List.mem_map.1 member
    rw [(lookup?_eq_some_iff distinct).2 listed] at free
    cases free
  rw [set_eq_append free, proper_iff]
  constructor
  · rw [List.map_append, List.map_singleton, ← List.concat_eq_append]
    exact distinct.concat fresh
  · intro named member
    rcases List.mem_append.1 member with listed | new
    · exact each named listed
    · rw [List.mem_singleton.1 new]
      exact ⟨isName, trivial⟩

namespace Loader

variable {tree after : FileTree} {extension : Text} {first second : Path} {listing others : Listing}

/-- The files of a directory are collected in the order of their paths. -/
theorem collect_of_placesWith (found : tree.find first = .ok (.directory listing)) (proper : listing.Proper) :
    collect tree extension [first] =
      .ok (((listing.placesWith extension).map first.below).mergeSort Path.le) := by
  have files : Listing.filesWith extension first listing = (listing.placesWith extension).map first.below :=
    Listing.filesWith_eq_map proper (FileTree.text_ne_nil_of_find found)
  simp only [collect, filesAt, found, files, List.append_nil]

/-- A directory is loaded alike from two paths when both trees have the same files there. -/
theorem load_rebased (found : tree.find first = .ok (.directory listing)) (proper : listing.Proper)
    (foundToo : after.find second = .ok (.directory others)) (properToo : others.Proper)
    (samePlaces : others.placesWith extension = listing.placesWith extension)
    (sameFiles : ∀ place ∈ listing.placesWith extension,
      Listing.entryAt? place others = Listing.entryAt? place listing) :
    LoadsAlike (Path.Rebased first second) (load tree extension [first]) (load after extension [second]) := by
  have present := FileTree.text_ne_nil_of_find found
  have presentToo := FileTree.text_ne_nil_of_find foundToo
  let order (one other : Place) : Bool := (first.below one).le (first.below other)
  have sorted : ((listing.placesWith extension).mergeSort order).map first.below =
      ((listing.placesWith extension).map first.below).mergeSort Path.le :=
    List.map_mergeSort fun _ _ _ _ => rfl
  have sortedToo : ((listing.placesWith extension).mergeSort order).map second.below =
      ((listing.placesWith extension).map second.below).mergeSort Path.le := by
    apply List.map_mergeSort
    intro one member other memberToo
    obtain ⟨-, names, -⟩ := Listing.exists_file_of_mem_placesWith proper member
    obtain ⟨-, namesToo, -⟩ := Listing.exists_file_of_mem_placesWith proper memberToo
    exact Path.le_below present presentToo names namesToo
  rw [load, load, collect_of_placesWith found proper, collect_of_placesWith foundToo properToo, samePlaces,
    ← sorted, ← sortedToo]
  apply loadFiles_renamed
  rw [List.forall₂_map_left_iff, List.forall₂_map_right_iff, List.forall₂_same]
  intro place member
  have known := List.mem_mergeSort.1 member
  obtain ⟨nonempty, names, text?, here⟩ := Listing.exists_file_of_mem_placesWith proper known
  have there := (sameFiles place known).trans here
  refine ⟨⟨place, nonempty, names, rfl, rfl⟩, ?_⟩
  rw [FileTree.readText, FileTree.readText, FileTree.find_below found names here,
    FileTree.find_below foundToo names there]

end Loader

end FeatureLint
