import FeatureLint.Linter.UniqueNames
import FeatureLint.Proofs.Ledger

/-!
This file follows a pass of the linter for unique names through its ledger. What a visit does depends
on the nodes that it checks, and a check depends on the mentions of the node and on the ledger before
it. Main statements: after any visits the ledger is the ledger of their mentions, and the visits report
nothing exactly when these mentions are apart.
-/

namespace FeatureLint

/-- Visits can be cut in two, and their problems come one after the other. -/
theorem Runner.visitAll_append (linters : List Linter) (first second : List (Document × Nat)) :
    visitAll linters (first ++ second) =
      ((visitAll (visitAll linters first).1 second).1,
        (visitAll linters first).2 ++ (visitAll (visitAll linters first).1 second).2) := by
  induction first generalizing linters with
  | nil => rfl
  | cons visit rest inductionHypothesis =>
      obtain ⟨document, number⟩ := visit
      simp only [List.cons_append, visitAll, inductionHypothesis, List.append_assoc]

namespace UniqueNames

/-- These are the mentions that the check of a node records. -/
def mentionsOf (document : Document) (number : Nat) : List Mention :=
  match document.scopeOf? number, document.line? number with
  | some scope, some line => (document.namesOf number).map fun name => ⟨scope, name, line⟩
  | _, _ => []

/-- This is the problem that the check of a node reports for a mention of a duplicated name. -/
def problemOf (document : Document) (number : Nat) (mention : Mention) (duplicate : Duplicate) :
    Problem :=
  ⟨linterName, message (subject document number) mention.name duplicate, mention.scope.file,
    mention.line⟩

/-- A check records all mentions of its node and then reports the first that is not alone. -/
theorem check_eq (document : Document) (number : Nat) (ledger : Ledger) :
    check document number ledger =
      (ledger.enterAll (mentionsOf document number),
        (mentionsOf document number).findSome? fun mention =>
          ((ledger.enterAll (mentionsOf document number)).duplicate? mention.name mention.scope).map
            (problemOf document number mention)) := by
  unfold check mentionsOf
  cases document.scopeOf? number with
  | none => rfl
  | some scope =>
      cases document.line? number with
      | none => rfl
      | some line =>
          simp only [Ledger.enterAll, List.foldl_map, List.findSome?_map]
          rfl

/-- What a check reports is about a mention of its node. -/
theorem exists_problemOf_of_check {document : Document} {number : Nat} {ledger : Ledger}
    {problem : Problem} (reported : (check document number ledger).2 = some problem) :
    ∃ mention ∈ mentionsOf document number, ∃ duplicate,
      problem = problemOf document number mention duplicate := by
  rw [check_eq] at reported
  obtain ⟨mention, member, found⟩ := List.exists_of_findSome?_eq_some reported
  obtain ⟨duplicate, -, rfl⟩ := Option.map_eq_some_iff.1 found
  exact ⟨mention, member, duplicate, rfl⟩

/-- What several checks report, one of them reported. -/
theorem exists_problemOf_of_checkAll {document : Document} {numbers : List Nat} {ledger : Ledger}
    {problem : Problem} (reported : (checkAll document numbers ledger).2 = some problem) :
    ∃ number ∈ numbers, ∃ mention ∈ mentionsOf document number, ∃ duplicate,
      problem = problemOf document number mention duplicate := by
  induction numbers generalizing ledger with
  | nil => cases reported
  | cons number rest inductionHypothesis =>
      rcases Option.or_eq_some_iff.1 reported with here | ⟨-, later⟩
      · exact ⟨number, List.mem_cons_self, exists_problemOf_of_check here⟩
      · obtain ⟨other, listed, same⟩ := inductionHypothesis later
        exact ⟨other, List.mem_cons_of_mem _ listed, same⟩

/-- A check only adds the mentions of its node to the history. -/
theorem check_ofMentions_fst (document : Document) (number : Nat) (history : List Mention) :
    (check document number (Ledger.ofMentions history)).1 =
      Ledger.ofMentions (history ++ mentionsOf document number) := by
  rw [check_eq, Ledger.ofMentions, Ledger.ofMentions, Ledger.enterAll_append]

/-- A check reports nothing exactly when each name of its node has occurred only once so far. -/
theorem check_ofMentions_snd_eq_none_iff (document : Document) (number : Nat)
    (history : List Mention) :
    (check document number (Ledger.ofMentions history)).2 = none ↔
      ∀ mention ∈ mentionsOf document number,
        (Mention.linesOf (history ++ mentionsOf document number) mention.name
          mention.scope).length < 2 := by
  rw [check_eq, Ledger.ofMentions, ← Ledger.enterAll_append, List.findSome?_eq_none_iff]
  refine forall_congr' fun mention => imp_congr_right fun _ => ?_
  rw [Option.map_eq_none_iff, Ledger.duplicate?_eq_none_iff]
  exact Ledger.occurrences_ofMentions _ mention.name mention.scope ▸ Iff.rfl

/-- Checks add the mentions of their nodes to the history, whatever they report. -/
theorem checkAll_ofMentions_fst (document : Document) (numbers : List Nat)
    (history : List Mention) :
    (checkAll document numbers (Ledger.ofMentions history)).1 =
      Ledger.ofMentions (history ++ numbers.flatMap (mentionsOf document)) := by
  induction numbers generalizing history with
  | nil => simp [checkAll]
  | cons number rest inductionHypothesis =>
      simp only [checkAll, check_ofMentions_fst, inductionHypothesis, List.flatMap_cons,
        List.append_assoc]

/-- Checks after mentions that are apart report nothing exactly when all mentions are apart. Only the
first problem is kept, but the first clash is never hidden. -/
theorem checkAll_ofMentions_snd_eq_none_iff (document : Document) (numbers : List Nat)
    {history : List Mention} (apart : Mention.Apart history) :
    (checkAll document numbers (Ledger.ofMentions history)).2 = none ↔
      Mention.Apart (history ++ numbers.flatMap (mentionsOf document)) := by
  induction numbers generalizing history with
  | nil => simpa [checkAll] using apart
  | cons number rest inductionHypothesis =>
      have first := (check_ofMentions_snd_eq_none_iff document number history).trans
        (Mention.apart_append_iff apart _).symm
      simp only [checkAll, check_ofMentions_fst, List.flatMap_cons, Option.or_eq_none_iff, first]
      rw [← List.append_assoc]
      constructor
      · intro given
        obtain ⟨grown, later⟩ := given
        exact (inductionHypothesis grown).1 later
      · intro all
        have grown : Mention.Apart (history ++ mentionsOf document number) :=
          List.Pairwise.sublist (List.sublist_append_left _ _) all
        exact ⟨grown, (inductionHypothesis grown).2 all⟩

/-- These are the mentions that a visit records. -/
def mentionsAt (document : Document) (number : Nat) : List Mention :=
  (checkedAt document number).flatMap (mentionsOf document)

/-- These are the mentions that a sequence of visits records. -/
def mentionsIn (visits : List (Document × Nat)) : List Mention :=
  visits.flatMap fun visit => mentionsAt visit.1 visit.2

/-- This is the linter in the middle of a pass. -/
def holding (ledger : Ledger) : Linter :=
  { linter with state := ledger }

/-- A visit of the only linter evaluates the node and keeps the ledger. -/
theorem visitEach_holding (document : Document) (number : Nat) (ledger : Ledger) :
    Runner.visitEach document number [holding ledger] =
      ([holding (evaluate document number ledger).1],
        (evaluate document number ledger).2.toList) := by
  simp only [Runner.visitEach, List.append_nil]
  rfl

/-- Visits only add their mentions to the history. -/
theorem visitAll_holding_fst (history : List Mention) (visits : List (Document × Nat)) :
    (Runner.visitAll [holding (Ledger.ofMentions history)] visits).1 =
      [holding (Ledger.ofMentions (history ++ mentionsIn visits))] := by
  induction visits generalizing history with
  | nil => simp [Runner.visitAll, mentionsIn]
  | cons visit rest inductionHypothesis =>
      obtain ⟨document, number⟩ := visit
      rw [Runner.visitAll, visitEach_holding, evaluate, checkAll_ofMentions_fst]
      simp only [inductionHypothesis, mentionsIn, List.flatMap_cons, List.append_assoc]
      rfl

/-- A pass reports nothing exactly when its mentions are apart. -/
theorem visitAll_holding_snd_eq_nil_iff (visits : List (Document × Nat)) {history : List Mention}
    (apart : Mention.Apart history) :
    (Runner.visitAll [holding (Ledger.ofMentions history)] visits).2 = [] ↔
      Mention.Apart (history ++ mentionsIn visits) := by
  induction visits generalizing history with
  | nil => simpa [Runner.visitAll, mentionsIn] using apart
  | cons visit rest inductionHypothesis =>
      obtain ⟨document, number⟩ := visit
      have first := checkAll_ofMentions_snd_eq_none_iff document (checkedAt document number) apart
      rw [Runner.visitAll, visitEach_holding, evaluate, checkAll_ofMentions_fst]
      simp only [List.append_eq_nil_iff, Option.toList_eq_nil_iff, first]
      have split : history ++ mentionsIn ((document, number) :: rest) =
          (history ++ mentionsAt document number) ++ mentionsIn rest := by
        rw [mentionsIn, List.flatMap_cons, ← List.append_assoc]
        rfl
      rw [split]
      constructor
      · intro given
        obtain ⟨grown, later⟩ := given
        exact (inductionHypothesis grown).1 later
      · intro all
        have grown : Mention.Apart (history ++ mentionsAt document number) :=
          List.Pairwise.sublist (List.sublist_append_left _ _) all
        exact ⟨grown, (inductionHypothesis grown).2 all⟩

end UniqueNames

/-- The linters of a default runner at the start of a pass hold an empty ledger. -/
theorem Runner.default_cleared :
    Runner.default.cleared.linters = [UniqueNames.holding (Ledger.ofMentions [])] := rfl

end FeatureLint
