import FeatureLint.Feature
import FeatureLint.Proofs.Independence
import FeatureLint.Proofs.Pass

/-!
This file follows a runner through everything that was asked of it before a pass. A linter that forgets
comes back to the state in which it was built whenever it is cleared. Main statement: a pass of such
linters finds what a runner would find that was just built from them, whatever passes, registrations
and settings came before, and it leaves every linter as it was built.
-/

namespace FeatureLint

namespace Linter

/-- This function shows a sequence of nodes to a linter and drops its problems. -/
def shown (linter : Linter) (visits : List (Document × Nat)) : Linter :=
  visits.foldl (fun linter visit => (linter.visit visit.1 visit.2).1) linter

/-- Clearing such a linter takes it back to its own state, whatever nodes it has seen since. -/
def Forgets (linter : Linter) : Prop :=
  ∀ visits, (linter.shown visits).cleared = linter

/-- Nodes change nothing but the state of a linter. -/
theorem exists_state_shown (linter : Linter) (visits : List (Document × Nat)) :
    ∃ state, linter.shown visits = { linter with state := state } := by
  induction visits generalizing linter with
  | nil => exact ⟨linter.state, rfl⟩
  | cons visit rest inductionHypothesis =>
      obtain ⟨state, same⟩ := inductionHypothesis (linter.visit visit.1 visit.2).1
      exact ⟨state, same⟩

theorem name_shown (linter : Linter) (visits : List (Document × Nat)) :
    (linter.shown visits).name = linter.name := by
  obtain ⟨state, same⟩ := linter.exists_state_shown visits
  rw [same]

/-- A linter that is always cleared to the state in which it was built forgets. -/
theorem forgets_of_clear {linter : Linter} (same : ∀ state, linter.clear state = linter.state) :
    linter.Forgets := by
  intro visits
  obtain ⟨state, seen⟩ := linter.exists_state_shown visits
  rw [seen]
  show { linter with state := linter.clear state } = linter
  rw [same]

end Linter

/-- The linter for unique names forgets all visits when it is cleared. -/
theorem UniqueNames.forgets_linter : linter.Forgets :=
  Linter.forgets_of_clear fun _ => rfl

/-- A linter may have seen nodes between the time it was built and its registration. -/
structure Candidate where
  built : Linter
  seen : List (Document × Nat)

def Candidate.linter (candidate : Candidate) : Linter :=
  candidate.built.shown candidate.seen

namespace Runner

/-- A call is one thing that can be asked of a runner. -/
inductive Call where
  | lint (documents : List Document)
  | register (candidate : Candidate)
  | configure (settings : Settings)

/-- This is the runner after a call. -/
def perform (runner : Runner) : Call → Runner
  | .lint documents => (runner.lint documents).2
  | .register candidate => runner.register candidate.linter
  | .configure settings => runner.configure settings

def performAll (runner : Runner) (history : List Call) : Runner :=
  history.foldl perform runner

/-- This function builds a runner by registering the linters one by one. -/
def build (linters : List Linter) : Runner :=
  linters.foldl register empty

/-- Registering linters one by one gives the runner that has them in order. -/
theorem build_eq (linters : List Linter) : build linters = ⟨linters⟩ := by
  have grown : ∀ runner : Runner, linters.foldl register runner = ⟨runner.linters ++ linters⟩ := by
    induction linters with
    | nil =>
        intro runner
        rw [List.append_nil, List.foldl_nil]
    | cons linter rest inductionHypothesis =>
        intro runner
        rw [List.foldl_cons, inductionHypothesis, register, List.append_assoc, List.singleton_append]
  exact grown empty

namespace Call

/-- These are the linters that a call brings into the runner. -/
def candidates : Call → List Candidate
  | .register candidate => [candidate]
  | .lint _ | .configure _ => []

/-- These are the linters of a runner after a call when nothing but registrations and settings counts.
-/
def select (linters : List Linter) : Call → List Linter
  | .lint _ => linters
  | .register candidate => linters ++ [candidate.built]
  | .configure settings => linters.filter fun linter => settings.isEnabled linter.name

/-- This is what a runner of linters that forget makes of its linters in a call. -/
def advance (candidates : List Candidate) : Call → List Candidate
  | .lint _ => candidates.map fun candidate => ⟨candidate.built, []⟩
  | .register candidate => candidates ++ [candidate]
  | .configure settings =>
      candidates.filter fun candidate => settings.isEnabled candidate.built.name

/-- A call changes the built linters by its selection. -/
theorem map_built_advance (candidates : List Candidate) (call : Call) :
    (call.advance candidates).map Candidate.built = call.select (candidates.map Candidate.built) := by
  cases call with
  | lint documents => exact List.map_map
  | register candidate => exact List.map_append
  | configure settings =>
      rw [select, List.filter_map]
      rfl

/-- A call builds no linters but those known before and those that it registers. -/
theorem exists_of_mem_advance {candidates : List Candidate} {call : Call} {candidate : Candidate}
    (member : candidate ∈ call.advance candidates) :
    ∃ known ∈ candidates ++ call.candidates, candidate.built = known.built := by
  cases call with
  | lint documents =>
      obtain ⟨known, inside, rfl⟩ := List.mem_map.1 member
      exact ⟨known, List.mem_append_left _ inside, rfl⟩
  | register other => exact ⟨candidate, member, rfl⟩
  | configure settings =>
      exact ⟨candidate, List.mem_append_left _ (List.mem_of_mem_filter member), rfl⟩

end Call

/-- Visits show their nodes to each linter as if it were alone. -/
theorem visitAll_fst (linters : List Linter) (visits : List (Document × Nat)) :
    (visitAll linters visits).1 = linters.map fun linter => linter.shown visits := by
  induction visits generalizing linters with
  | nil => exact (List.map_id linters).symm
  | cons visit rest inductionHypothesis =>
      obtain ⟨document, number⟩ := visit
      rw [visitAll_cons, inductionHypothesis, visitEach_eq, List.map_map]
      rfl

/-- This runner holds linters that may have seen nodes. -/
def ofCandidates (candidates : List Candidate) : Runner :=
  ⟨candidates.map Candidate.linter⟩

/-- Linters that forget are cleared of all visits. -/
theorem cleared_of_forgets {linters : List Linter} (forget : ∀ linter ∈ linters, linter.Forgets)
    (visits : List (Document × Nat)) :
    cleared ⟨linters.map fun linter => linter.shown visits⟩ = ⟨linters⟩ := by
  have back : linters.map (Linter.cleared ∘ fun linter => linter.shown visits) = linters.map id := by
    apply List.map_congr_left
    intro linter member
    exact forget linter member visits
  rw [cleared, List.map_map, back, List.map_id]

/-- A pass over linters that are cleared to others that forget starts and ends with these others. The
first clearing is for the nodes that the linters saw before, and the second one for the nodes of the
pass. -/
theorem lint_of_cleared {runner : Runner} {linters : List Linter}
    (forget : ∀ linter ∈ linters, linter.Forgets) (before : runner.cleared = ⟨linters⟩)
    (documents : List Document) :
    runner.lint documents = ((visitAll linters (visits documents)).2, ⟨linters⟩) := by
  have after : cleared ⟨(visitAll linters (visits documents)).1⟩ = ⟨linters⟩ := by
    rw [visitAll_fst]
    exact cleared_of_forgets forget (visits documents)
  rw [lint, before]
  exact Prod.ext rfl after

/-- A pass of fresh linters reports what their visits report, and all of them are fresh afterwards. -/
theorem lint_build {linters : List Linter} (forget : ∀ linter ∈ linters, linter.Forgets)
    (documents : List Document) :
    (build linters).lint documents = ((visitAll linters (visits documents)).2, ⟨linters⟩) := by
  apply lint_of_cleared forget
  rw [build_eq]
  conv_rhs => rw [← cleared_of_forgets forget []]
  exact congrArg (fun same => cleared ⟨same⟩) (List.map_id linters).symm

section Forgetting

variable {candidates : List Candidate} (forget : ∀ candidate ∈ candidates, candidate.built.Forgets)
include forget

/-- A pass of any candidates reports what the built linters report. -/
theorem lint_ofCandidates (documents : List Document) :
    (ofCandidates candidates).lint documents =
      ((visitAll (candidates.map Candidate.built) (visits documents)).2,
        ⟨candidates.map Candidate.built⟩) := by
  apply lint_of_cleared (List.forall_mem_map.2 forget)
  rw [ofCandidates, cleared, List.map_map]
  congr 1
  apply List.map_congr_left
  intro candidate member
  exact forget candidate member candidate.seen

/-- After any call the runner is that of some candidates again. -/
theorem perform_ofCandidates (call : Call) :
    (ofCandidates candidates).perform call = ofCandidates (call.advance candidates) := by
  cases call with
  | lint documents =>
      rw [perform, lint_ofCandidates forget, ofCandidates, Call.advance, List.map_map]
      rfl
  | register candidate =>
      rw [perform, register, ofCandidates, ofCandidates, Call.advance, List.map_append]
      rfl
  | configure settings =>
      rw [perform, configure, ofCandidates, ofCandidates, Call.advance, List.filter_map]
      congr 2
      apply List.filter_congr
      intro candidate _
      show settings.isEnabled candidate.linter.name = settings.isEnabled candidate.built.name
      rw [Candidate.linter, Linter.name_shown]

end Forgetting

/-- After any calls the runner holds the linters that registrations and settings have selected, each of
them after some nodes. -/
theorem exists_candidates_performAll {candidates : List Candidate} {history : List Call}
    (forget : ∀ candidate ∈ candidates ++ history.flatMap Call.candidates, candidate.built.Forgets) :
    ∃ later, (ofCandidates candidates).performAll history = ofCandidates later ∧
      later.map Candidate.built = history.foldl Call.select (candidates.map Candidate.built) ∧
      ∀ candidate ∈ later, candidate.built.Forgets := by
  induction history generalizing candidates with
  | nil =>
      rw [List.flatMap_nil, List.append_nil] at forget
      exact ⟨candidates, rfl, rfl, forget⟩
  | cons call rest inductionHypothesis =>
      rw [List.flatMap_cons, ← List.append_assoc, List.forall_mem_append] at forget
      obtain ⟨now, later⟩ := forget
      have advanced : ∀ candidate ∈ call.advance candidates, candidate.built.Forgets := by
        intro candidate member
        obtain ⟨known, inside, same⟩ := Call.exists_of_mem_advance member
        exact same ▸ now known inside
      obtain ⟨last, reached, selected, forgetLast⟩ :=
        inductionHypothesis (List.forall_mem_append.2 ⟨advanced, later⟩)
      refine ⟨last, ?_, ?_, forgetLast⟩
      · rw [← reached, ← perform_ofCandidates (List.forall_mem_append.1 now).1]
        rfl
      · rw [selected, Call.map_built_advance]
        rfl

/-- A pass does not depend on what came before it. It finds what a runner would find that was just built
from the same linters, and it leaves every linter as it was built. The linter for unique names forgets,
and a pass leaves it with an empty ledger. -/
theorem lint_forgets_history {candidates : List Candidate} {history : List Call}
    (forget : ∀ candidate ∈ candidates ++ history.flatMap Call.candidates, candidate.built.Forgets)
    (documents : List Document) :
    let runner := (ofCandidates candidates).performAll history
    let fresh := build (history.foldl Call.select (candidates.map Candidate.built))
    (runner.lint documents).1 = (fresh.lint documents).1 ∧ (runner.lint documents).2 = fresh ∧
      UniqueNames.linter.Forgets ∧
      ∀ place : Nat, fresh.linters[place]? = some UniqueNames.linter →
        ∃ ledger, (runner.lint documents).2.linters[place]? = some (UniqueNames.holding ledger) ∧
          ledger.isEmpty = true ∧ ledger.scopeCount = 0 := by
  intro runner fresh
  obtain ⟨later, reached, selected, forgetLater⟩ := exists_candidates_performAll forget
  have sameLinters : fresh = build (later.map Candidate.built) := by rw [selected]
  have pass : runner.lint documents = fresh.lint documents := by
    rw [sameLinters, lint_build (List.forall_mem_map.2 forgetLater), ← lint_ofCandidates forgetLater]
    exact congrArg (fun runner => lint runner documents) reached
  have back : (fresh.lint documents).2 = fresh := by
    rw [sameLinters, lint_build (List.forall_mem_map.2 forgetLater), build_eq]
  refine ⟨by rw [pass], by rw [pass, back], UniqueNames.forgets_linter, ?_⟩
  intro place found
  refine ⟨Ledger.empty, ?_, rfl, rfl⟩
  rw [pass, back]
  exact found

/-- Both linters have seen nodes before they are registered, one pass comes before the second
registration and one after it, and the settings drop a linter that was registered in between. -/
theorem lint_forgets_history_of_used_linters :
    let counter : Linter :=
      { State := Nat
        name := "Counter".toList
        description := []
        look := fun _ number seen =>
          (seen + 1, some ⟨"Counter".toList, Text.ofNat (seen + 1), ⟨[]⟩, number⟩)
        clear := fun _ => 0
        state := 0 }
    let path : Path := ⟨"a".toList⟩
    let document := Document.ofFeature path (some ⟨1, [], [⟨2, [], .scenario⟩], []⟩)
    let other := Document.ofFeature path (some ⟨1, [], [⟨2, [], .scenario⟩, ⟨3, [], .scenario⟩], []⟩)
    let dropped : Linter := { counter with name := "Dropped".toList }
    let settings : Settings := { Settings.default with linters := [⟨"Dropped".toList, false⟩] }
    let candidates : List Candidate := [⟨UniqueNames.linter, [(document, 2), (document, 2)]⟩]
    let history : List Call := [.lint [document, other], .register ⟨dropped, []⟩,
      .register ⟨counter, [(other, 1), (other, 2)]⟩, .lint [other], .configure settings]
    let runner := (ofCandidates candidates).performAll history
    (∀ candidate ∈ candidates ++ history.flatMap Call.candidates, candidate.built.Forgets) ∧
      (runner.lint [document]).1 = ((build [UniqueNames.linter, counter]).lint [document]).1 ∧
      (runner.lint [document]).2.linters = [UniqueNames.linter, counter] ∧
      (runner.lint [document]).1.map (fun problem => problem.message) =
        ["1".toList, "2".toList, "3".toList] := by
  intro counter path document other dropped settings candidates history runner
  have forget : ∀ candidate ∈ candidates ++ history.flatMap Call.candidates,
      candidate.built.Forgets := by
    have counts : counter.Forgets := Linter.forgets_of_clear fun _ => rfl
    have countsToo : dropped.Forgets := Linter.forgets_of_clear fun _ => rfl
    exact List.forall_mem_cons.2 ⟨UniqueNames.forgets_linter, List.forall_mem_cons.2
      ⟨countsToo, List.forall_mem_singleton.2 counts⟩⟩
  obtain ⟨same, back, -⟩ := lint_forgets_history forget [document]
  have selected : history.foldl Call.select (candidates.map Candidate.built) =
      [UniqueNames.linter, counter] := by rfl
  rw [selected] at same back
  refine ⟨forget, same, ?_, ?_⟩
  · rw [back, build_eq]
  · rw [same]
    decide +kernel

end Runner

end FeatureLint
