import FeatureLint.Proofs.LintCommand
import FeatureLint.Proofs.StraightPaths

/-!
This file follows the search for settings. The search tries one directory in each round and then goes on to the
directory above it, until there is none. Main statement: on a straight path the search tries the places on the way
to its end, each at most once and the deepest first, and it comes back with the settings of the deepest place that
has any.
-/

namespace FeatureLint

namespace FileTree

variable {tree : FileTree}

/-- A path leads to a file when it finds one. -/
theorem isFile_iff {path : Path} : tree.isFile path = true ↔ ∃ text?, tree.find path = .ok (.file text?) := by
  unfold isFile
  cases tree.find path with
  | error cause => simp
  | ok entry => cases entry <;> simp

/-- A directory holds settings when it has a file of their name. A directory of that name does not count. -/
def HoldsSettings (tree : FileTree) (place : Place) : Prop :=
  ∃ text?, tree.entryAt? (place ++ [Settings.fileName]) = some (.file text?)

instance (tree : FileTree) (place : Place) : Decidable (tree.HoldsSettings place) :=
  match found : tree.entryAt? (place ++ [Settings.fileName]) with
  | some (.file text?) => .isTrue ⟨text?, found⟩
  | some (.directory _) => .isFalse fun ⟨_, holds⟩ => by cases found.symm.trans holds
  | none => .isFalse fun ⟨_, holds⟩ => by cases found.symm.trans holds

end FileTree

/-- The settings are kept under a valid name. -/
theorem Settings.isName_fileName : Path.IsName fileName := by
  decide

/-- Below a straight path the settings are a file exactly when the directory holds them. -/
theorem FileTree.isFile_settingsPath_iff {tree : FileTree} {directory : Path} (straight : directory.IsStraight) :
    tree.isFile (Command.settingsPath directory) = true ↔ tree.HoldsSettings directory.names := by
  rw [isFile_iff, HoldsSettings]
  exact exists_congr fun text? => find_join_of_isStraight straight Settings.isName_fileName

namespace Settings

open Command (settingsPath)

variable {tree : FileTree}

/-- Each round of the search tries one directory. It ends the search when the directory has a file of the right
name or nothing is above it, and otherwise the search goes on above it. The directories that were tried are kept
in order. -/
inductive Searches (tree : FileTree) : (current : Path) → (tried : List Path) → Option Path → Prop where
  | found {current : Path} (here : tree.isFile (settingsPath current) = true) :
      Searches tree current [current] (some (settingsPath current))
  | climbs {current parent : Path} {tried : List Path} {result? : Option Path}
      (notHere : tree.isFile (settingsPath current) = false) (above : current.parent? = some parent)
      (further : Searches tree parent tried result?) : Searches tree current (current :: tried) result?
  | ends {current : Path} (notHere : tree.isFile (settingsPath current) = false)
      (top : current.parent? = none) : Searches tree current [current] none

/-- The search ends on every path, because the path gets shorter in each round. -/
theorem exists_searches (tree : FileTree) (start : Path) :
    ∃ tried result?, Searches tree start tried result? := by
  induction start using Path.parent_induction with
  | top path top =>
      cases here : tree.isFile (settingsPath path) with
      | true => exact ⟨_, _, .found here⟩
      | false => exact ⟨_, _, .ends here top⟩
  | below path parent above inductionHypothesis =>
      cases here : tree.isFile (settingsPath path) with
      | true => exact ⟨_, _, .found here⟩
      | false =>
          obtain ⟨tried, result?, further⟩ := inductionHypothesis
          exact ⟨_, _, .climbs here above further⟩

/-- The search tries a path and those above it in turn, up to the first that has settings. -/
theorem Searches.tries_lineage {start : Path} {tried : List Path} {result? : Option Path}
    (searches : Searches tree start tried result?) :
    (find tree start).toOption = result? ∧ tried <+: start.lineage ∧
      (result? = none → tried = start.lineage) := by
  rw [Command.toOption_find]
  induction searches with
  | @found current here =>
      obtain ⟨others, same⟩ : ∃ others, current.lineage = current :: others := by
        cases above : current.parent? with
        | none => exact ⟨[], Path.lineage_of_parent?_eq_none above⟩
        | some parent => exact ⟨parent.lineage, Path.lineage_of_parent? above⟩
      have first : (current :: others).find? (fun directory => tree.isFile (settingsPath directory)) =
          some current := List.find?_cons_of_pos here
      rw [same, first]
      refine ⟨rfl, ⟨others, rfl⟩, ?_⟩
      intro impossible
      cases impossible
  | climbs notHere above _ inductionHypothesis =>
      obtain ⟨same, tries, whole⟩ := inductionHypothesis
      rw [Path.lineage_of_parent? above, List.find?_cons_of_neg (by simp [notHere])]
      refine ⟨same, (List.prefix_cons_inj _).2 tries, ?_⟩
      intro missing
      rw [whole missing]
  | ends notHere top =>
      rw [Path.lineage_of_parent?_eq_none top, List.find?_cons_of_neg (by simp [notHere])]
      exact ⟨rfl, List.prefix_rfl, fun _ => rfl⟩

/-- The search fails only by finding nothing, and then it names its start. -/
theorem find_eq_error_iff {start : Path} {error : SettingsError} :
    find tree start = .error error ↔ error = .notFound start ∧ (find tree start).toOption = none := by
  unfold find
  split
  · simp [Except.toOption]
  · simp [Except.toOption, eq_comm]

theorem find_eq_ok_iff {start path : Path} :
    find tree start = .ok path ↔ (find tree start).toOption = some path := by
  cases find tree start <;> simp [Except.toOption]

/-- Among the places on the way to another one, each comes before those that it lies in. -/
theorem pairwise_inits_reverse (place : Place) :
    place.inits.reverse.Pairwise fun deeper shallower => shallower <+: deeper := by
  induction place using List.reverseRecOn with
  | nil => exact List.pairwise_singleton _ _
  | append_singleton place name inductionHypothesis =>
      rw [List.inits_append, List.reverse_append]
      refine List.pairwise_cons.2 ⟨fun other member => ?_, inductionHypothesis⟩
      exact ((List.mem_inits _ _).1 (List.mem_reverse.1 member)).trans (List.prefix_append _ _)

/-- The settings that are found are those of the deepest place that holds any. -/
theorem exists_deepest_of_find {start path : Path} (straight : start.IsStraight)
    (found : find tree start = .ok path) :
    ∃ directory place, path = settingsPath directory ∧ directory.IsStraight ∧ directory.names = place ∧
      place <+: start.names ∧ tree.HoldsSettings place ∧
      ∀ other, other <+: start.names → tree.HoldsSettings other → other <+: place := by
  obtain ⟨allStraight, places⟩ := straight.lineage
  rw [find_eq_ok_iff, Command.toOption_find, Option.map_eq_some_iff] at found
  obtain ⟨directory, first, rfl⟩ := found
  obtain ⟨here, below, above, split, noneBelow⟩ := List.find?_eq_some_iff_append.1 first
  have known : directory ∈ start.lineage := split ▸ List.mem_append_cons_self
  have directoryStraight := allStraight directory known
  have ordered := pairwise_inits_reverse start.names
  rw [split, List.map_append, List.map_cons] at places
  rw [← places] at ordered
  have onTheWay (place : Place) : place <+: start.names ↔
      place ∈ below.map Path.names ++ directory.names :: above.map Path.names := by
    rw [places, List.mem_reverse, List.mem_inits]
  refine ⟨directory, _, rfl, directoryStraight, rfl, ?_, ?_, ?_⟩
  · rw [onTheWay]
    exact List.mem_append_cons_self
  · exact (FileTree.isFile_settingsPath_iff directoryStraight).1 here
  · intro other inside holds
    rcases List.mem_append.1 ((onTheWay other).1 inside) with deeper | shallower
    · obtain ⟨lower, member, rfl⟩ := List.mem_map.1 deeper
      have lowerStraight := allStraight lower (split ▸ List.mem_append_left _ member)
      have absent := noneBelow lower member
      rw [(FileTree.isFile_settingsPath_iff lowerStraight).2 holds] at absent
      cases absent
    · rcases List.mem_cons.1 shallower with rfl | higher
      · exact List.prefix_rfl
      · exact (List.pairwise_cons.1 (List.pairwise_append.1 ordered).2.1).1 other higher

/-- The search fails exactly when no directory on the way up holds settings. -/
theorem find_eq_notFound_iff {start : Path} (straight : start.IsStraight) {error : SettingsError} :
    find tree start = .error error ↔
      error = .notFound start ∧ ∀ place, place <+: start.names → ¬tree.HoldsSettings place := by
  obtain ⟨allStraight, places⟩ := straight.lineage
  rw [find_eq_error_iff, Command.toOption_find, Option.map_eq_none_iff, List.find?_eq_none]
  refine and_congr_right fun _ => ⟨fun nowhere place inside holds => ?_, fun nowhere directory member => ?_⟩
  · rw [← List.mem_inits, ← List.mem_reverse, ← places] at inside
    obtain ⟨directory, member, rfl⟩ := List.mem_map.1 inside
    exact nowhere directory member ((FileTree.isFile_settingsPath_iff (allStraight _ member)).2 holds)
  · rw [FileTree.isFile_settingsPath_iff (allStraight directory member)]
    apply nowhere
    rw [← List.mem_inits, ← List.mem_reverse, ← places]
    exact List.mem_map_of_mem member

/-- The search ends on every straight path. It tries the places on the way to the end of the path, each at most
once and the deepest first, and all of them if it finds nothing. It finds something exactly when one of the places
holds settings, and then it comes back with those of the deepest one. Otherwise it says where it started. -/
theorem find_returns_nearest (tree : FileTree) (start : Path) (straight : start.IsStraight) :
    (∃ tried result?, Searches tree start tried result?) ∧
    (∀ tried result?, Searches tree start tried result? →
      find tree start = result?.elim (.error (.notFound start)) .ok ∧
      tried.map Path.names <+: start.names.inits.reverse ∧
      (result? = none → tried.map Path.names = start.names.inits.reverse)) ∧
    ((∃ path, find tree start = .ok path) ↔ ∃ place, place <+: start.names ∧ tree.HoldsSettings place) ∧
    (∀ path, find tree start = .ok path → ∃ place, place <+: start.names ∧ tree.HoldsSettings place ∧
      (∀ other, other <+: start.names → tree.HoldsSettings other → other <+: place) ∧
      path.components = .root :: (place ++ [fileName]).map .name ∧
      tree.placeOf path = .ok (place ++ [fileName])) ∧
    ∀ error, find tree start = .error error ↔
      error = .notFound start ∧ ∀ place, place <+: start.names → ¬tree.HoldsSettings place := by
  refine ⟨exists_searches tree start, ?_, ?_, ?_, fun error => find_eq_notFound_iff straight⟩
  · intro tried result? searches
    obtain ⟨same, tries, whole⟩ := searches.tries_lineage
    have places := straight.lineage.2
    refine ⟨?_, places ▸ tries.map Path.names, fun missing => ?_⟩
    · cases result? with
      | none => exact find_eq_error_iff.2 ⟨rfl, same⟩
      | some path => exact find_eq_ok_iff.2 same
    · rw [whole missing, places]
  · constructor
    · rintro ⟨path, found⟩
      obtain ⟨directory, place, -, -, -, inside, holds, -⟩ := exists_deepest_of_find straight found
      exact ⟨place, inside, holds⟩
    · rintro ⟨place, inside, holds⟩
      cases outcome : find tree start with
      | ok path => exact ⟨path, rfl⟩
      | error error => exact absurd holds (((find_eq_notFound_iff straight).1 outcome).2 place inside)
  · intro path found
    obtain ⟨directory, place, rfl, directoryStraight, rfl, inside, holds, deepest⟩ :=
      exists_deepest_of_find straight found
    obtain ⟨text?, here⟩ := holds
    have present : directory.text ≠ [] := by
      have start := (Path.isAbsolute_iff directory).1 directoryStraight.1
      obtain ⟨rest, text⟩ := List.head?_eq_some_iff.1 start
      exact text ▸ List.cons_ne_nil _ _
    refine ⟨_, inside, ⟨text?, here⟩, deepest, ?_, ?_⟩
    · rw [settingsPath, isName_fileName.components_join present, directoryStraight.components_eq,
        directoryStraight.names_eq, List.map_append]
      rfl
    · apply (FileTree.placeOf_join_of_isStraight directoryStraight isName_fileName).2
      rw [FileTree.contentAt?_of_entryAt? here]
      exact ⟨rfl, rfl⟩

/-- The start does not exist, a directory of the right name is in the way, and the settings of the root are hidden
by nearer ones. -/
theorem find_returns_nearest_past_directory :
    let settings : Text × Entry := (fileName, .file none)
    let inner : Text × Entry := ("b".toList, .directory [(fileName, .directory [])])
    let tree : FileTree := ⟨[settings, ("a".toList, .directory [inner, settings])], []⟩
    let start : Path := ⟨"/a/./b//c/".toList⟩
    start.names = ["a".toList, "b".toList, "c".toList] ∧
      find tree start = .ok ⟨"/a/gherlint.toml".toList⟩ ∧
      tree.placeOf ⟨"/a/gherlint.toml".toList⟩ = .ok ["a".toList, fileName] ∧
      find ⟨[inner], []⟩ start = .error (.notFound start) := by
  intro settings inner tree start
  have straight : start.IsStraight := ⟨rfl, by decide⟩
  have lineage : start.lineage = [start, ⟨"/a/./b".toList⟩, ⟨"/a".toList⟩, ⟨"/".toList⟩] := by
    with_unfolding_all rfl
  have found : find tree start = .ok ⟨"/a/gherlint.toml".toList⟩ := by
    rw [find, lineage]
    decide
  obtain ⟨-, -, -, nearest, -⟩ := find_returns_nearest tree start straight
  obtain ⟨place, -, -, -, spelled, leads⟩ := nearest _ found
  have same : place = ["a".toList] := by
    have components : Path.components ⟨"/a/gherlint.toml".toList⟩ =
        .root :: (["a".toList] ++ [fileName]).map .name := by
      decide
    rw [components, List.cons.injEq, List.map_inj_right (by simp), List.append_cancel_right_eq] at spelled
    exact spelled.2.symm
  rw [same] at leads
  refine ⟨by decide, found, leads, ?_⟩
  obtain ⟨-, -, -, -, missing⟩ := find_returns_nearest ⟨[inner], []⟩ start straight
  refine (missing _).2 ⟨rfl, fun place inside => ?_⟩
  have nowhere : ∀ place ∈ start.names.inits, ¬FileTree.HoldsSettings ⟨[inner], []⟩ place := by
    decide
  exact nowhere place ((List.mem_inits _ _).2 inside)

end Settings

end FeatureLint
