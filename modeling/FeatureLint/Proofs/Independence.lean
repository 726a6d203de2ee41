import FeatureLint.Feature
import FeatureLint.Proofs.Pass
import FeatureLint.Proofs.Walk
import Mathlib.Data.List.Basic

/-!
This file takes the pass of a runner apart into what each of its linters does. A visit changes each
linter as if it were alone, so in the middle of a pass the linters are those that saw the same visits
one by one. Main statement: the problems of a pass are the reports of its linters at its steps, in the
order of the steps and of the registration, each linter reports what it reports in a pass of its own,
and settings only leave out the problems of the linters that they disable.
-/

namespace FeatureLint

/-- The problems of such a linter carry its name, whatever it has seen. -/
def Linter.ReportsOwnName (linter : Linter) : Prop :=
  ∀ document number state problem,
    (linter.look document number state).2 = some problem → problem.linter = linter.name

namespace UniqueNames

/-- The linter for unique names signs its problems. -/
theorem reportsOwnName_linter : linter.ReportsOwnName := by
  intro document number ledger problem reported
  obtain ⟨_, _, _, _, _, rfl⟩ := exists_problemOf_of_checkAll reported
  rfl

end UniqueNames

namespace Runner

/-- A visit changes each linter as if it were alone, and the problems come in the order of the
linters. -/
theorem visitEach_eq (document : Document) (number : Nat) (linters : List Linter) :
    visitEach document number linters =
      (linters.map fun linter => (linter.visit document number).1,
        linters.filterMap fun linter => (linter.visit document number).2) := by
  induction linters with
  | nil => rfl
  | cons linter rest inductionHypothesis =>
      rw [visitEach, inductionHypothesis, List.map_cons, List.filterMap_cons]
      obtain ⟨visited, problem?⟩ := linter.visit document number
      cases problem? <;> rfl

theorem visitAll_cons (linters : List Linter) (document : Document) (number : Nat)
    (rest : List (Document × Nat)) :
    visitAll linters ((document, number) :: rest) =
      ((visitAll (visitEach document number linters).1 rest).1,
        (visitEach document number linters).2 ++
          (visitAll (visitEach document number linters).1 rest).2) := rfl

/-- Visits take the linter at each place where they take it alone. -/
theorem visitAll_getElem? (linters : List Linter) (visits : List (Document × Nat)) (place : Nat) :
    (visitAll linters visits).1[place]? =
      (linters[place]?).bind fun linter => (visitAll [linter] visits).1[0]? := by
  induction visits generalizing linters with
  | nil =>
      rw [visitAll]
      cases linters[place]? <;> rfl
  | cons visit rest inductionHypothesis =>
      obtain ⟨document, number⟩ := visit
      rw [visitAll_cons, inductionHypothesis, visitEach_eq, List.getElem?_map]
      cases linters[place]? with
      | none => rfl
      | some linter => rfl

/-- This is what the linter at a place reports at a step of a sequence of visits. -/
def reportAt? (linters : List Linter) (visits : List (Document × Nat)) (step place : Nat) :
    Option Problem :=
  visits[step]?.bind fun visit =>
    (visitAll linters (visits.take step)).1[place]?.bind fun linter =>
      (linter.visit visit.1 visit.2).2

/-- The report of a linter does not depend on the other linters. -/
theorem reportAt?_eq_alone {linters : List Linter} {place : Nat} {linter : Linter}
    (registered : linters[place]? = some linter) (visits : List (Document × Nat)) (step : Nat) :
    reportAt? linters visits step place = reportAt? [linter] visits step 0 := by
  unfold reportAt?
  rw [visitAll_getElem? linters, registered]
  rfl

/-- Only linters report, and only at visits. -/
theorem lt_of_reportAt? {linters : List Linter} {visits : List (Document × Nat)} {step place : Nat}
    {problem : Problem} (reported : reportAt? linters visits step place = some problem) :
    step < visits.length ∧ place < linters.length := by
  simp only [reportAt?, Option.bind_eq_some_iff] at reported
  obtain ⟨visit, here, linter, found, -⟩ := reported
  rw [visitAll_getElem?, Option.bind_eq_some_iff] at found
  obtain ⟨registered, known, -⟩ := found
  exact ⟨(List.getElem?_eq_some_iff.1 here).1, (List.getElem?_eq_some_iff.1 known).1⟩

/-- A finding is a problem with the step of the pass and the place of the linter that it comes from. -/
structure Finding where
  step : Nat
  place : Nat
  problem : Problem

/-- Findings of one step come in the order of the linters. -/
def Finding.Before (first second : Finding) : Prop :=
  first.step < second.step ∨ first.step = second.step ∧ first.place < second.place

/-- These are the findings of one step. -/
def findingsAt (linters : List Linter) (visits : List (Document × Nat)) (step : Nat) :
    List Finding :=
  (List.range linters.length).filterMap fun place =>
    (reportAt? linters visits step place).map (⟨step, place, ·⟩)

def findingsIn (linters : List Linter) (visits : List (Document × Nat)) : List Finding :=
  (List.range visits.length).flatMap (findingsAt linters visits)

/-- These are all findings of a pass. -/
def findings (runner : Runner) (documents : List Document) : List Finding :=
  findingsIn runner.cleared.linters (visits documents)

/-- The findings at a step are the reports of the linters there. -/
theorem mem_findingsAt_iff (linters : List Linter) (visits : List (Document × Nat)) (step : Nat)
    (finding : Finding) :
    finding ∈ findingsAt linters visits step ↔
      finding.step = step ∧
        reportAt? linters visits step finding.place = some finding.problem := by
  rw [findingsAt, List.mem_filterMap]
  constructor
  · intro given
    obtain ⟨place, -, found⟩ := given
    obtain ⟨problem, reported, rfl⟩ := Option.map_eq_some_iff.1 found
    exact ⟨rfl, reported⟩
  · rintro ⟨rfl, reported⟩
    refine ⟨finding.place, List.mem_range.2 (lt_of_reportAt? reported).2, ?_⟩
    rw [reported]
    rfl

/-- The findings of a pass are the reports at its steps. -/
theorem mem_findingsIn_iff (linters : List Linter) (visits : List (Document × Nat))
    (finding : Finding) :
    finding ∈ findingsIn linters visits ↔
      reportAt? linters visits finding.step finding.place = some finding.problem := by
  rw [findingsIn, List.mem_flatMap]
  constructor
  · intro given
    obtain ⟨step, -, inside⟩ := given
    obtain ⟨rfl, reported⟩ := (mem_findingsAt_iff linters visits step finding).1 inside
    exact reported
  · intro reported
    exact ⟨finding.step, List.mem_range.2 (lt_of_reportAt? reported).1,
      (mem_findingsAt_iff linters visits finding.step finding).2 ⟨rfl, reported⟩⟩

/-- Findings come in the order of the steps and then of the linters. -/
theorem pairwise_findingsIn (linters : List Linter) (visits : List (Document × Nat)) :
    (findingsIn linters visits).Pairwise Finding.Before := by
  rw [findingsIn, List.pairwise_flatMap]
  constructor
  · intro step _
    rw [findingsAt, List.pairwise_filterMap]
    refine List.pairwise_lt_range.imp fun smaller first firstFound second secondFound => ?_
    obtain ⟨_, -, rfl⟩ := Option.map_eq_some_iff.1 firstFound
    obtain ⟨_, -, rfl⟩ := Option.map_eq_some_iff.1 secondFound
    exact Or.inr ⟨rfl, smaller⟩
  · refine List.pairwise_lt_range.imp fun smaller first firstFound second secondFound => ?_
    have firstStep := ((mem_findingsAt_iff _ _ _ first).1 firstFound).1
    have secondStep := ((mem_findingsAt_iff _ _ _ second).1 secondFound).1
    exact Or.inl (by omega)

/-- The findings of one step without their origin are the reports of the linters in order. -/
theorem map_problem_findingsAt (linters : List Linter) (visits : List (Document × Nat)) (step : Nat) :
    (findingsAt linters visits step).map Finding.problem =
      (List.range linters.length).filterMap (reportAt? linters visits step) := by
  rw [findingsAt, List.map_filterMap]
  refine List.filterMap_congr fun place _ => ?_
  cases reportAt? linters visits step place <;> rfl

/-- Asking the items by their places is asking them in order. -/
theorem filterMap_range_getElem? {Item : Type 1} {Result : Type} (items : List Item)
    (report? : Item → Option Result) :
    (List.range items.length).filterMap (fun place => items[place]?.bind report?) =
      items.filterMap report? := by
  induction items with
  | nil => rfl
  | cons item rest inductionHypothesis =>
      rw [List.length_cons, List.range_succ_eq_map, List.filterMap_cons, List.filterMap_map,
        List.filterMap_cons, ← inductionHypothesis]
      rfl

/-- Visits report the problems of their findings, in the same order. -/
theorem visitAll_snd (linters : List Linter) (visits : List (Document × Nat)) :
    (visitAll linters visits).2 = (findingsIn linters visits).map Finding.problem := by
  rw [findingsIn, List.map_flatMap]
  simp only [map_problem_findingsAt]
  induction visits generalizing linters with
  | nil => rfl
  | cons visit rest inductionHypothesis =>
      obtain ⟨document, number⟩ := visit
      have same : (visitEach document number linters).1.length = linters.length := by
        rw [visitEach_eq, List.length_map]
      have first : (visitEach document number linters).2 =
          (List.range linters.length).filterMap
            (reportAt? linters ((document, number) :: rest) 0) := by
        rw [visitEach_eq]
        exact (filterMap_range_getElem? linters _).symm
      rw [visitAll_cons, inductionHypothesis, List.length_cons, List.range_succ_eq_map,
        List.flatMap_cons, List.flatMap_map, first, same]
      rfl

/-- What the linter at one place finds at a step is what it reports there. -/
theorem filter_findingsAt {linters : List Linter} {place : Nat} (known : place < linters.length)
    (visits : List (Document × Nat)) (step : Nat) :
    ((findingsAt linters visits step).filter fun finding => finding.place = place).map
        Finding.problem = (reportAt? linters visits step place).toList := by
  have alone : (List.range linters.length).filter (fun other => other = place) = [place] := by
    rw [List.filter_eq, List.nodup_range.count, if_pos (List.mem_range.2 known)]
    rfl
  have chosen : (findingsAt linters visits step).filter (fun finding => finding.place = place) =
      ((List.range linters.length).filter fun other => other = place).filterMap fun other =>
        (reportAt? linters visits step other).map (⟨step, other, ·⟩) := by
    rw [findingsAt, List.filter_filterMap, List.filterMap_filter]
    refine List.filterMap_congr fun other _ => ?_
    cases reportAt? linters visits step other with
    | none => simp
    | some problem => simp [Option.filter_some]
  rw [chosen, alone]
  cases reported : reportAt? linters visits step place <;> simp [reported]

/-- What the linter at one place finds in a sequence of visits is what it finds in it alone. -/
theorem filter_findingsIn {linters : List Linter} {place : Nat} {linter : Linter}
    (registered : linters[place]? = some linter) (visits : List (Document × Nat)) :
    ((findingsIn linters visits).filter fun finding => finding.place = place).map Finding.problem =
      (visitAll [linter] visits).2 := by
  have known := (List.getElem?_eq_some_iff.1 registered).1
  rw [visitAll_snd, findingsIn, findingsIn, List.filter_flatMap, List.map_flatMap, List.map_flatMap]
  refine List.flatMap_congr fun step _ => ?_
  rw [filter_findingsAt known, reportAt?_eq_alone registered, map_problem_findingsAt]
  cases reported : reportAt? [linter] visits step 0 <;> simp [reported]

/-- Leaving out linters by their names leaves out their problems. -/
theorem visitEach_filter {linters : List Linter}
    (ownNames : ∀ linter ∈ linters, linter.ReportsOwnName) (keeps : Text → Bool)
    (document : Document) (number : Nat) :
    visitEach document number (linters.filter fun linter => keeps linter.name) =
      ((visitEach document number linters).1.filter fun linter => keeps linter.name,
        (visitEach document number linters).2.filter fun problem => keeps problem.linter) := by
  simp only [visitEach_eq, List.filter_map, List.filterMap_filter, List.filter_filterMap]
  refine Prod.ext rfl (List.filterMap_congr fun linter member => ?_)
  have own := ownNames linter member document number linter.state
  cases reported : (linter.visit document number).2 with
  | none => simp
  | some problem =>
      rw [Option.filter_some, own problem reported]

/-- Leaving linters out by their names leaves out their problems and changes nothing else. -/
theorem visitAll_filter {linters : List Linter}
    (ownNames : ∀ linter ∈ linters, linter.ReportsOwnName) (keeps : Text → Bool)
    (visits : List (Document × Nat)) :
    (visitAll (linters.filter fun linter => keeps linter.name) visits).2 =
      (visitAll linters visits).2.filter fun problem => keeps problem.linter := by
  induction visits generalizing linters with
  | nil => rfl
  | cons visit rest inductionHypothesis =>
      obtain ⟨document, number⟩ := visit
      have still : ∀ linter ∈ (visitEach document number linters).1, linter.ReportsOwnName := by
        rw [visitEach_eq, List.forall_mem_map]
        exact ownNames
      rw [visitAll_cons, visitAll_cons, visitEach_filter ownNames, List.filter_append,
        inductionHypothesis still]

/-- Linters do not interfere. The findings of a pass are exactly the reports of its linters, and they
come in the order of the documents, of the nodes in each document and of the registration. Each linter
finds what it finds in a pass of its own, and settings leave out the problems of the linters that they
disable. -/
theorem linters_do_not_interfere {runner : Runner}
    (ownNames : ∀ linter ∈ runner.linters, linter.ReportsOwnName) (documents : List Document) :
    let steps := documents.flatMap fun document =>
      (document.preorder 0).map fun number => (document, number)
    (∀ finding, finding ∈ runner.findings documents ↔
      reportAt? runner.cleared.linters steps finding.step finding.place = some finding.problem) ∧
    (runner.findings documents).Pairwise Finding.Before ∧
    (runner.findings documents).map Finding.problem = (runner.lint documents).1 ∧
    (∀ place linter, runner.linters[place]? = some linter →
      ((runner.findings documents).filter fun finding => finding.place = place).map
        Finding.problem = ((Runner.mk [linter]).lint documents).1) ∧
    ∀ settings : Settings, ((runner.configure settings).lint documents).1 =
      (runner.lint documents).1.filter fun problem => settings.isEnabled problem.linter := by
  intro steps
  have inOrder : visits documents = steps :=
    List.flatMap_congr fun document _ => by rw [Document.walk_eq_preorder]
  refine ⟨?_, pairwise_findingsIn _ _, (visitAll_snd _ _).symm, ?_, ?_⟩
  · intro finding
    rw [← inOrder]
    exact mem_findingsIn_iff _ _ finding
  · intro place linter registered
    have cleared : runner.cleared.linters[place]? = some linter.cleared := by
      rw [Runner.cleared, List.getElem?_map, registered]
      rfl
    exact filter_findingsIn cleared (visits documents)
  · intro settings
    have cleared : ∀ linter ∈ runner.cleared.linters, linter.ReportsOwnName :=
      List.forall_mem_map.2 ownNames
    have filtered := visitAll_filter cleared settings.isEnabled (visits documents)
    rw [Runner.cleared, List.filter_map] at filtered
    exact filtered

/-- A linter that counts the nodes is registered before and after the linter for unique names, and the
settings disable it and one that nobody registered. -/
theorem linters_do_not_interfere_between_counters :
    let counter : Linter :=
      { State := Nat
        name := "Counter".toList
        description := []
        look := fun _ number seen =>
          (seen + 1, some ⟨"Counter".toList, Text.ofNat (seen + 1), ⟨[]⟩, number⟩)
        clear := fun _ => 0
        state := 5 }
    let runner : Runner := ⟨[counter, UniqueNames.linter, counter]⟩
    let settings : Settings :=
      { Settings.default with linters := [⟨"Counter".toList, false⟩, ⟨"Unknown".toList, false⟩] }
    let path : Path := ⟨"a".toList⟩
    let document := Document.ofFeature path (some ⟨1, [], [⟨2, [], .scenario⟩, ⟨3, [], .scenario⟩], []⟩)
    (∀ linter ∈ runner.linters, linter.ReportsOwnName) ∧
      (runner.lint [document]).1.length = 9 ∧
      ((runner.findings [document]).filter fun finding => finding.place = 2).map Finding.problem =
        ((Runner.mk [counter]).lint [document]).1 ∧
      ((runner.configure settings).lint [document]).1 =
        (runner.lint [document]).1.filter (fun problem => settings.isEnabled problem.linter) ∧
      ((runner.configure settings).lint [document]).1.map (fun problem => problem.location) =
        [⟨path, 3⟩] := by
  intro counter runner settings path document
  have counts : counter.ReportsOwnName := by
    intro _ _ _ problem reported
    cases reported
    rfl
  have ownNames : ∀ linter ∈ runner.linters, linter.ReportsOwnName :=
    List.forall_mem_cons.2 ⟨counts, List.forall_mem_cons.2
      ⟨UniqueNames.reportsOwnName_linter, List.forall_mem_singleton.2 counts⟩⟩
  obtain ⟨-, -, -, alone, configured⟩ := linters_do_not_interfere ownNames [document]
  exact ⟨ownNames, by decide +kernel, alone 2 counter rfl, configured settings, by decide +kernel⟩

end Runner

end FeatureLint
