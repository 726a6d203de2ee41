import FeatureLint.Proofs.LoadOutcome

/-!
This file says what happens when paths overlap. A file that is reached again is loaded again, and since
its scope is its path, each of its names is recorded once more. Main statement: after a path is named
again, problems are found exactly when they were found before or the files of that path have any name,
while a file that is reached once is judged by its own names alone.
-/

namespace FeatureLint

namespace Loader

variable {tree : FileTree} {extension : Text} {paths : List Path} {path : Path}

/-- Paths reach another one when it is among them or is collected for one of them. -/
def Reaches (tree : FileTree) (extension : Text) (paths : List Path) (path : Path) : Prop :=
  path ∈ paths ∨
    ∃ directory ∈ paths, ∃ files, collect tree extension [directory] = .ok files ∧ path ∈ files

theorem collect_append {others files otherFiles : List Path}
    (collected : collect tree extension paths = .ok files)
    (collectedToo : collect tree extension others = .ok otherFiles) :
    collect tree extension (paths ++ others) = .ok (files ++ otherFiles) := by
  obtain ⟨groups, stand, rfl⟩ := collect_eq_ok_iff.1 collected
  obtain ⟨otherGroups, standToo, rfl⟩ := collect_eq_ok_iff.1 collectedToo
  exact collect_eq_ok_iff.2
    ⟨groups ++ otherGroups, List.rel_append stand standToo, List.flatten_append.symm⟩

theorem load_append {others : List Path} {documents otherDocuments : List Document}
    (loads : load tree extension paths = .ok documents)
    (loadsToo : load tree extension others = .ok otherDocuments) :
    load tree extension (paths ++ others) = .ok (documents ++ otherDocuments) := by
  obtain ⟨files, collects, loaded⟩ := load_eq_ok_iff.1 loads
  obtain ⟨otherFiles, collectsToo, loadedToo⟩ := load_eq_ok_iff.1 loadsToo
  have collected := collect_append (collect_eq_ok_iff.2 collects) (collect_eq_ok_iff.2 collectsToo)
  exact load_eq_ok_iff.2 ⟨_, collect_eq_ok_iff.1 collected, List.rel_append loaded loadedToo⟩

/-- The files of a path are among those of all paths. -/
theorem exists_collect_of_mem {files : List Path} (collected : collect tree extension paths = .ok files)
    (member : path ∈ paths) : ∃ own, collect tree extension [path] = .ok own ∧ own ⊆ files := by
  obtain ⟨groups, stand, rfl⟩ := collect_eq_ok_iff.1 collected
  obtain ⟨group, known, standsFor⟩ := exists_mem_of_forall₂ stand member
  refine ⟨group, collect_eq_ok_iff.2 ⟨[group], .cons standsFor .nil, List.flatten_singleton.symm⟩, ?_⟩
  exact fun file inside => List.mem_flatten.2 ⟨group, known, inside⟩

/-- A path that is reached stands for files that are collected already. -/
theorem Reaches.exists_collect (reached : Reaches tree extension paths path) (proper : tree.Proper)
    {files : List Path} (collected : collect tree extension paths = .ok files) :
    ∃ own, collect tree extension [path] = .ok own ∧ own ⊆ files := by
  rcases reached with member | ⟨directory, member, inside, collectedInside, isInside⟩
  · exact exists_collect_of_mem collected member
  · obtain ⟨own, collectedOwn, subset⟩ := exists_collect_of_mem collected member
    cases collectedInside.symm.trans collectedOwn
    obtain ⟨text?, found⟩ := exists_find_of_mem_collect proper collectedInside isInside
    refine ⟨[path], collect_eq_ok_iff.2 ⟨[[path]], .cons (.file found) .nil, rfl⟩, ?_⟩
    exact List.cons_subset.2 ⟨subset isInside, List.nil_subset _⟩

/-- A path that is reached is loaded into documents that are loaded already. -/
theorem Reaches.exists_load (reached : Reaches tree extension paths path) (proper : tree.Proper)
    {documents : List Document} (loads : load tree extension paths = .ok documents) :
    ∃ repeated, load tree extension [path] = .ok repeated ∧ repeated ⊆ documents := by
  obtain ⟨files, collects, loaded⟩ := load_eq_ok_iff.1 loads
  obtain ⟨own, collectedOwn, subset⟩ := reached.exists_collect proper (collect_eq_ok_iff.2 collects)
  have parsed : ∀ file ∈ own, ∃ document, IsDocument tree file document := by
    intro file member
    obtain ⟨document, -, holds⟩ := exists_mem_of_forall₂ loaded (subset member)
    exact ⟨document, holdsDocument_iff.1 holds⟩
  obtain ⟨repeated, loadsOwn⟩ := exists_load_of_collect proper collectedOwn parsed
  refine ⟨repeated, loadsOwn, fun document member => ?_⟩
  -- One file is loaded into one document, whichever path leads to it.
  obtain ⟨ownToo, collectsOwn, loadedOwn⟩ := load_eq_ok_iff.1 loadsOwn
  cases collectedOwn.symm.trans (collect_eq_ok_iff.2 collectsOwn)
  obtain ⟨file, inside, holds⟩ := exists_mem_of_forall₂ loadedOwn.flip member
  obtain ⟨same, known, holdsToo⟩ := exists_mem_of_forall₂ loaded (subset inside)
  cases (loadFile_eq_ok_iff.2 holds).symm.trans (loadFile_eq_ok_iff.2 holdsToo)
  exact known

/-- Every document that is loaded was parsed. -/
theorem exists_parse_of_load {documents : List Document} {document : Document}
    (loads : load tree extension paths = .ok documents) (member : document ∈ documents) :
    ∃ file text, Document.parse file text = .ok document := by
  obtain ⟨files, -, loaded⟩ := load_eq_ok_iff.1 loads
  obtain ⟨file, -, text, -, parsed⟩ := exists_mem_of_forall₂ loaded.flip member
  exact ⟨file, text, parsed⟩

end Loader

namespace UniqueNames

theorem mentionsIn_visits_append (documents others : List Document) :
    mentionsIn (Runner.visits (documents ++ others)) =
      mentionsIn (Runner.visits documents) ++ mentionsIn (Runner.visits others) := by
  rw [Runner.visits_append, mentionsIn, List.flatMap_append]
  rfl

theorem lt_size_of_isCounted {document : Document} {number : Nat}
    (counted : document.isCounted number = true) : number < document.size := by
  have checked := (Bool.and_eq_true_iff.1 counted).1
  have named := (Bool.and_eq_true_iff.1 checked).1
  rcases Bool.or_eq_true_iff.1 named with isScenario | isOutline
  · exact Document.lt_size_of_is isScenario
  · exact Document.lt_size_of_is isOutline

/-- A pass records the mentions of the nodes that count. -/
theorem mem_mentionsIn_visits_iff (documents : List Document) (mention : Mention) :
    mention ∈ mentionsIn (Runner.visits documents) ↔
      ∃ document ∈ documents, ∃ number, document.isCounted number = true ∧
        mention ∈ mentionsOf document number := by
  rw [(mentionsIn_visits_perm documents).mem_iff]
  simp only [countedMentions, List.mem_flatMap, List.mem_filter, List.mem_range]
  constructor
  · rintro ⟨document, member, number, ⟨-, counted⟩, mentioned⟩
    exact ⟨document, member, number, counted, mentioned⟩
  · rintro ⟨document, member, number, counted, mentioned⟩
    exact ⟨document, member, number, ⟨lt_size_of_isCounted counted, counted⟩, mentioned⟩

/-- Mentions that are recorded again clash with themselves. -/
theorem apart_append_iff {mentions again : List Mention} (subset : again ⊆ mentions) :
    Mention.Apart (mentions ++ again) ↔ Mention.Apart mentions ∧ again = [] := by
  constructor
  · intro apart
    obtain ⟨apart, -, across⟩ := List.pairwise_append.1 apart
    refine ⟨apart, List.eq_nil_iff_forall_not_mem.2 fun mention member => ?_⟩
    exact across mention (subset member) mention member ⟨Scope.alike_refl mention.scope, rfl⟩
  · rintro ⟨apart, rfl⟩
    rwa [List.append_nil]

/-- Parsed documents mention something exactly when some scenario or outline in them has a name. -/
theorem mentionsIn_visits_ne_nil_iff {documents : List Document}
    (parsed : ∀ document ∈ documents, ∃ file text, Document.parse file text = .ok document) :
    mentionsIn (Runner.visits documents) ≠ [] ↔
      ∃ document ∈ documents, ∃ number, document.isNamed number = true ∧ document.namesOf number ≠ [] := by
  rw [Ne, List.eq_nil_iff_forall_not_mem, not_forall_not]
  simp only [mem_mentionsIn_visits_iff]
  constructor
  · rintro ⟨mention, document, member, number, counted, mentioned⟩
    have checked := (Bool.and_eq_true_iff.1 counted).1
    refine ⟨document, member, number, (Bool.and_eq_true_iff.1 checked).1, fun unnamed => ?_⟩
    obtain ⟨scope, line, -, -, mentions⟩ := exists_mentionsOf_of_isCounted counted
    rw [mentions, unnamed] at mentioned
    cases mentioned
  · rintro ⟨document, member, number, named, nonempty⟩
    obtain ⟨file, text, parsed⟩ := parsed document member
    obtain ⟨feature?, -, rfl⟩ := Document.exists_ofFeature_of_parse parsed
    have counted := Document.isCounted_of_forest (Document.forest_ofFeature file feature?) rfl named
    obtain ⟨scope, line, -, -, mentions⟩ := exists_mentionsOf_of_isCounted counted
    obtain ⟨name, known⟩ := List.exists_mem_of_ne_nil _ nonempty
    refine ⟨⟨scope, name, line⟩, _, member, number, counted, ?_⟩
    rw [mentions]
    exact List.mem_map_of_mem known

/-- Documents that are shown again are reported unless they mention nothing. -/
theorem lint_default_again_ne_nil_iff {documents again : List Document} (subset : again ⊆ documents)
    (parsed : ∀ document ∈ again, ∃ file text, Document.parse file text = .ok document) :
    (Runner.default.lint (documents ++ again)).1 ≠ [] ↔
      (Runner.default.lint documents).1 ≠ [] ∨
        ∃ document ∈ again, ∃ number, document.isNamed number = true ∧ document.namesOf number ≠ [] := by
  have mentionsSubset : mentionsIn (Runner.visits again) ⊆ mentionsIn (Runner.visits documents) := by
    intro mention
    rw [mem_mentionsIn_visits_iff, mem_mentionsIn_visits_iff]
    rintro ⟨document, member, rest⟩
    exact ⟨document, subset member, rest⟩
  rw [← mentionsIn_visits_ne_nil_iff parsed, Ne, Ne, Ne, lint_default_eq_nil_iff, lint_default_eq_nil_iff,
    mentionsIn_visits_append, apart_append_iff mentionsSubset, not_and_or]

end UniqueNames

namespace Loader

open UniqueNames

/-- Naming a path again gives every name in its files a second mention, so that problems are found then
if they were found before or there is any name. A file that is reached once is reported exactly when its
own mentions clash. -/
theorem naming_again_repeats_names (tree : FileTree) (proper : tree.Proper) (extension : Text)
    (paths : List Path) (documents : List Document) (loads : load tree extension paths = .ok documents) :
    (∀ path, Reaches tree extension paths path →
      ∃ repeated, load tree extension [path] = .ok repeated ∧ repeated ⊆ documents ∧
        load tree extension (paths ++ [path]) = .ok (documents ++ repeated) ∧
        ((Runner.default.lint (documents ++ repeated)).1 ≠ [] ↔
          (Runner.default.lint documents).1 ≠ [] ∨
            ∃ document ∈ repeated, ∃ number, document.isNamed number = true ∧
              document.namesOf number ≠ [])) ∧
    ∀ path document, documents.filter (Document.liesIn fun file => file.alike path) = [document] →
      ((∃ problem ∈ (Runner.default.lint documents).1, problem.location.file.alike path = true) ↔
        ¬Mention.Apart (mentionsIn (Runner.visits [document]))) := by
  constructor
  · intro path reached
    obtain ⟨repeated, loadsAgain, subset⟩ := reached.exists_load proper loads
    refine ⟨repeated, loadsAgain, subset, load_append loads loadsAgain, ?_⟩
    exact lint_default_again_ne_nil_iff subset fun document member => exists_parse_of_load loadsAgain member
  · intro path document once
    have parsed : ∀ document ∈ documents, ∃ path, document.KeepsTo path := by
      intro document member
      obtain ⟨file, text, parsed⟩ := exists_parse_of_load loads member
      exact ⟨file, Document.keepsTo_of_parse parsed⟩
    have own := Runner.filter_lint_default (Path.respectsAlike_alike path) parsed
    rw [once] at own
    rw [← lint_default_eq_nil_iff, ← own, List.filter_eq_nil_iff]
    push Not
    rfl

/-- A directory is named and then the only file in it, whose one scenario is reported from then on. -/
theorem naming_again_repeats_names_below_directory :
    let directory : Path := ⟨"x".toList⟩
    let path : Path := ⟨"x/a.feature".toList⟩
    let source := "Feature: F\nScenario: S\n".toList
    let tree : FileTree := ⟨[("x".toList, .directory [("a.feature".toList, .file (some source))])], []⟩
    let document := Document.ofFeature path (some ⟨1, "F".toList, [⟨2, "S".toList, .scenario⟩], []⟩)
    load tree "feature".toList [directory] = .ok [document] ∧
      (¬∃ problem ∈ (Runner.default.lint [document]).1, problem.location.file.alike path = true) ∧
      ∃ repeated, load tree "feature".toList [path] = .ok repeated ∧
        load tree "feature".toList [directory, path] = .ok (document :: repeated) ∧
        (Runner.default.lint (document :: repeated)).1 ≠ [] := by
  intro directory path source tree document
  have proper : tree.Proper := by
    simp [FileTree.Proper, tree, Listing.Proper, Entry.Proper, Path.IsName]
  have sorted : (Listing.filesWith "feature".toList directory
      [("a.feature".toList, .file (some source))]).mergeSort Path.le = [path] :=
    List.mergeSort_singleton path
  have stands : StandsFor tree "feature".toList directory [path] := sorted ▸ .directory rfl
  have collected : collect tree "feature".toList [directory] = .ok [path] :=
    collect_eq_ok_iff.2 ⟨[[path]], .cons stands .nil, rfl⟩
  have parsed : Document.parse path source = .ok document := by
    with_unfolding_all rfl
  have loads : load tree "feature".toList [directory] = .ok [document] :=
    load_eq_of_loadsTo (.documents collected (.cons ⟨rfl, source, rfl, parsed⟩ .nil))
  have reached : Reaches tree "feature".toList [directory] path :=
    Or.inr ⟨directory, List.mem_singleton_self _, [path], collected, List.mem_singleton_self _⟩
  obtain ⟨again, once⟩ := naming_again_repeats_names tree proper _ [directory] [document] loads
  refine ⟨loads, ?_, ?_⟩
  · rw [once path document rfl]
    decide +kernel
  · obtain ⟨repeated, loadsAgain, -, loadsBoth, found⟩ := again path reached
    refine ⟨repeated, loadsAgain, loadsBoth, found.2 (Or.inr ?_)⟩
    have loadsPath : load tree "feature".toList [path] = .ok [document] :=
      load_eq_of_loadsTo (.documents rfl (.cons ⟨rfl, source, rfl, parsed⟩ .nil))
    cases loadsPath.symm.trans loadsAgain
    exact ⟨document, List.mem_singleton_self _, 2, rfl, by decide +kernel⟩

/-- Nothing is found in a file with one scenario, but when the file is named twice, the scenario is
reported as a duplicate of itself. -/
theorem scenario_clashes_with_itself :
    let path : Path := ⟨"a.feature".toList⟩
    let source := "Feature: F\n  Scenario: S\n".toList
    let tree : FileTree := ⟨[(path.text, .file (some source))], []⟩
    ∃ documents more, load tree "feature".toList [path] = .ok documents ∧
      load tree "feature".toList ([path] ++ [path]) = .ok more ∧
      (Runner.default.lint documents).1 = [] ∧ (Runner.default.lint more).1 ≠ [] := by
  intro path source tree
  let document := Document.ofFeature path (some ⟨1, "F".toList, [⟨2, "S".toList, .scenario⟩], []⟩)
  have parsed : Document.parse path source = .ok document := by
    with_unfolding_all rfl
  have isDocument : IsDocument tree path document := ⟨rfl, source, rfl, parsed⟩
  have loads : load tree "feature".toList [path] = .ok [document] :=
    load_eq_of_loadsTo (.documents rfl (.cons isDocument .nil))
  refine ⟨[document], [document] ++ [document], loads, load_append loads loads, ?_, ?_⟩
  · decide +kernel
  · decide +kernel

end Loader

end FeatureLint
