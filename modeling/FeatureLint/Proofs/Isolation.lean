import FeatureLint.Proofs.Duplicates
import Mathlib.Data.List.Basic

/-!
This file shows that files do not influence each other in a pass. All documents of a pass share one
ledger, but a check asks the ledger only about scopes in its own file. Main statement: the problems in
the files of one class are exactly those of a pass over the documents of that class, so passes over
documents with different paths can be run one by one.
-/

namespace FeatureLint

/-- A class of files does not tell alike paths apart. -/
def Path.RespectsAlike (keeps : Path → Bool) : Prop :=
  ∀ first second : Path, first.alike second = true → keeps first = keeps second

/-- The spellings of one path are a class. -/
theorem Path.respectsAlike_alike (path : Path) :
    RespectsAlike fun file => file.alike path := by
  intro first second same
  rw [alike_iff] at same
  rw [Bool.eq_iff_iff, alike_iff, alike_iff, same]

/-- Two ledgers agree on a class of files when they know the same occurrences in these files. -/
def Ledger.AgreeOn (keeps : Path → Bool) (first second : Ledger) : Prop :=
  ∀ name scope, keeps scope.file = true →
    first.occurrences name scope = second.occurrences name scope

namespace Ledger.AgreeOn

variable {keeps : Path → Bool} {first second : Ledger}

theorem refl (keeps : Path → Bool) (ledger : Ledger) : ledger.AgreeOn keeps ledger :=
  fun _ _ _ => rfl

/-- Ledgers that agree on a class have the same duplicates in it. -/
theorem duplicate?_eq (agree : first.AgreeOn keeps second) (name : Text) {scope : Scope}
    (kept : keeps scope.file = true) :
    first.duplicate? name scope = second.duplicate? name scope := by
  unfold duplicate?
  rw [agree name scope kept]

/-- The same mentions keep ledgers in agreement. -/
theorem enterAll (agree : first.AgreeOn keeps second) (mentions : List Mention) :
    (first.enterAll mentions).AgreeOn keeps (second.enterAll mentions) := by
  intro name scope kept
  rw [occurrences_enterAll, occurrences_enterAll, agree name scope kept]

/-- Mentions in other files do not change what a ledger knows about the files of the class. -/
theorem enterAll_of_other (agree : first.AgreeOn keeps second) (respects : Path.RespectsAlike keeps)
    {mentions : List Mention} (others : ∀ mention ∈ mentions, keeps mention.scope.file = false) :
    (first.enterAll mentions).AgreeOn keeps second := by
  intro name scope kept
  have nothing : Mention.linesOf mentions name scope = [] := by
    rw [Mention.linesOf, List.map_eq_nil_iff, List.filter_eq_nil_iff]
    intro mention member records
    have sameScope := ((Mention.records_iff name scope mention).1 records).1
    have sameFile := (Scope.alike_iff mention.scope scope).1 sameScope
    have outside := others mention member
    rw [respects _ _ ((Path.alike_iff _ _).2 sameFile.1), kept] at outside
    contradiction
  rw [occurrences_enterAll, nothing, List.append_nil]
  exact agree name scope kept

end Ledger.AgreeOn

/-- A document keeps to a path when its root is the file at that path and every scope in it belongs to
that file. -/
structure Document.KeepsTo (document : Document) (path : Path) : Prop where
  root : document.path? = some path
  scopes : ∀ number scope, document.scopeOf? number = some scope → scope.file = path

/-- A document that was parsed has no other file than its root. -/
theorem Document.keepsTo_of_parse {path : Path} {source : Text} {document : Document}
    (parsed : parse path source = .ok document) : document.KeepsTo path := by
  obtain ⟨feature?, -, rfl⟩ := exists_ofFeature_of_parse parsed
  refine ⟨rfl, ?_⟩
  intro number scope inScope
  unfold scopeOf? at inScope
  cases above : (ofFeature path feature?).ancestor? number .file with
  | none => simp [above] at inScope
  | some file =>
      have isRoot := eq_zero_of_is_file (forest_ofFeature path feature?) rfl (is_of_ancestor? above)
      subst isRoot
      have rootKind : (ofFeature path feature?).kind? 0 = some (.file path) := rfl
      simp only [above, rootKind, Kind.path?, Option.bind_some, Option.bind_eq_bind,
        Option.pure_def, Option.some.injEq] at inScope
      rw [← inScope]

/-- This test asks whether the path of a document belongs to a class of files. -/
def Document.liesIn (keeps : Path → Bool) (document : Document) : Bool :=
  document.path?.any keeps

/-- A document that keeps to a path lies in the classes of the path. -/
theorem Document.KeepsTo.liesIn_eq {document : Document} {path : Path}
    (keepsTo : document.KeepsTo path) (keeps : Path → Bool) :
    document.liesIn keeps = keeps path := by
  rw [liesIn, keepsTo.root, Option.any_some]

namespace UniqueNames

/-- Every mention of a node is in the scope of the node. -/
theorem scope_of_mem_mentionsOf {document : Document} {number : Nat} {mention : Mention}
    (member : mention ∈ mentionsOf document number) :
    document.scopeOf? number = some mention.scope := by
  unfold mentionsOf at member
  split at member
  · next scope line inScope onLine =>
      obtain ⟨name, -, rfl⟩ := List.mem_map.1 member
      exact inScope
  · cases member

section Checks

variable {document : Document} {path : Path} (keepsTo : document.KeepsTo path)

include keepsTo

/-- Every mention of a document is in its file. -/
theorem file_of_mem_mentionsOf {number : Nat} {mention : Mention}
    (member : mention ∈ mentionsOf document number) : mention.scope.file = path :=
  keepsTo.scopes number mention.scope (scope_of_mem_mentionsOf member)

/-- Checks report problems only in the file of their document. -/
theorem file_of_checkAll {numbers : List Nat} {ledger : Ledger} {problem : Problem}
    (reported : (checkAll document numbers ledger).2 = some problem) :
    problem.location.file = path := by
  obtain ⟨number, -, mention, member, duplicate, rfl⟩ := exists_problemOf_of_checkAll reported
  exact file_of_mem_mentionsOf keepsTo member

variable {keeps : Path → Bool} {first second : Ledger}

/-- In a file of the class, checks on ledgers that agree report the same and go on to agree. -/
theorem check_of_agreeOn (agree : first.AgreeOn keeps second) (kept : keeps path = true)
    (number : Nat) :
    (check document number first).2 = (check document number second).2 ∧
      (check document number first).1.AgreeOn keeps (check document number second).1 := by
  have grown := agree.enterAll (mentionsOf document number)
  rw [check_eq, check_eq]
  refine ⟨?_, grown⟩
  dsimp only
  rw [← List.head?_filterMap, ← List.head?_filterMap]
  refine congrArg List.head? (List.filterMap_congr fun mention member => ?_)
  have inside : keeps mention.scope.file = true := by
    rw [file_of_mem_mentionsOf keepsTo member, kept]
  rw [grown.duplicate?_eq mention.name inside]

/-- In a file of the class, several checks on ledgers that agree report the same and go on to agree.
-/
theorem checkAll_of_agreeOn (agree : first.AgreeOn keeps second) (kept : keeps path = true)
    (numbers : List Nat) :
    (checkAll document numbers first).2 = (checkAll document numbers second).2 ∧
      (checkAll document numbers first).1.AgreeOn keeps (checkAll document numbers second).1 := by
  induction numbers generalizing first second with
  | nil => exact ⟨rfl, agree⟩
  | cons number rest inductionHypothesis =>
      obtain ⟨same, agreeAfter⟩ := check_of_agreeOn keepsTo agree kept number
      obtain ⟨sameLater, agreeLater⟩ := inductionHypothesis agreeAfter
      refine ⟨?_, agreeLater⟩
      simp only [checkAll]
      rw [same, sameLater]

/-- Checks in other files do not change what a ledger knows about the files of the class. -/
theorem checkAll_of_other (agree : first.AgreeOn keeps second) (respects : Path.RespectsAlike keeps)
    (dropped : keeps path = false) (numbers : List Nat) :
    (checkAll document numbers first).1.AgreeOn keeps second := by
  induction numbers generalizing first with
  | nil => exact agree
  | cons number rest inductionHypothesis =>
      have agreeAfter : (check document number first).1.AgreeOn keeps second := by
        rw [check_eq]
        apply agree.enterAll_of_other respects
        intro mention member
        rw [file_of_mem_mentionsOf keepsTo member, dropped]
      exact inductionHypothesis agreeAfter

end Checks

/-- The first visit reports first. -/
theorem visitAll_holding_cons (document : Document) (number : Nat) (rest : List (Document × Nat))
    (ledger : Ledger) :
    (Runner.visitAll [holding ledger] ((document, number) :: rest)).2 =
      (evaluate document number ledger).2.toList ++
        (Runner.visitAll [holding (evaluate document number ledger).1] rest).2 := by
  rw [Runner.visitAll, visitEach_holding]

/-- The problems of visits lie in the files of the visited documents. -/
theorem exists_visit_of_mem_visitAll {visits : List (Document × Nat)}
    (parsed : ∀ visit ∈ visits, ∃ path, visit.1.KeepsTo path) (ledger : Ledger) {problem : Problem}
    (member : problem ∈ (Runner.visitAll [holding ledger] visits).2) :
    ∃ visit ∈ visits, visit.1.path? = some problem.location.file := by
  induction visits generalizing ledger with
  | nil => cases member
  | cons visit rest inductionHypothesis =>
      obtain ⟨document, number⟩ := visit
      rw [visitAll_holding_cons] at member
      rcases List.mem_append.1 member with here | later
      · obtain ⟨path, keepsTo⟩ := parsed (document, number) List.mem_cons_self
        have reported := file_of_checkAll keepsTo (Option.mem_toList.1 here)
        exact ⟨(document, number), List.mem_cons_self, reported ▸ keepsTo.root⟩
      · obtain ⟨visit, visited, same⟩ := inductionHypothesis
          (fun visit visited => parsed visit (List.mem_cons_of_mem _ visited)) _ later
        exact ⟨visit, List.mem_cons_of_mem _ visited, same⟩

/-- Visits of kept documents report the same with and without the visits in between, because those
leave the ledger as it was on the files of the class. -/
theorem filter_visitAll {keeps : Path → Bool} (respects : Path.RespectsAlike keeps)
    {visits : List (Document × Nat)} (parsed : ∀ visit ∈ visits, ∃ path, visit.1.KeepsTo path)
    {first second : Ledger} (agree : first.AgreeOn keeps second) :
    (Runner.visitAll [holding first] visits).2.filter (fun problem => keeps problem.location.file) =
      (Runner.visitAll [holding second] (visits.filter fun visit => visit.1.liesIn keeps)).2 := by
  induction visits generalizing first second with
  | nil => rfl
  | cons visit rest inductionHypothesis =>
      obtain ⟨document, number⟩ := visit
      obtain ⟨path, keepsTo⟩ := parsed (document, number) List.mem_cons_self
      have later := @inductionHypothesis fun visit visited =>
        parsed visit (List.mem_cons_of_mem _ visited)
      have reported : ∀ problem ∈ (evaluate document number first).2.toList,
          problem.location.file = path :=
        fun problem member => file_of_checkAll keepsTo (Option.mem_toList.1 member)
      rw [visitAll_holding_cons, List.filter_append]
      cases kept : keeps path with
      | true =>
          obtain ⟨same, agreeAfter⟩ : (evaluate document number first).2 =
                (evaluate document number second).2 ∧
              (evaluate document number first).1.AgreeOn keeps (evaluate document number second).1 :=
            checkAll_of_agreeOn keepsTo agree kept (checkedAt document number)
          have all : (evaluate document number first).2.toList.filter
              (fun problem => keeps problem.location.file) =
                (evaluate document number first).2.toList := by
            rw [List.filter_eq_self]
            intro problem member
            rw [reported problem member, kept]
          rw [List.filter_cons_of_pos (by rw [keepsTo.liesIn_eq, kept]),
            visitAll_holding_cons, all, later agreeAfter, same]
      | false =>
          have nothing : (evaluate document number first).2.toList.filter
              (fun problem => keeps problem.location.file) = [] := by
            rw [List.filter_eq_nil_iff]
            intro problem member
            rw [reported problem member, kept]
            exact Bool.false_ne_true
          have agreeAfter := checkAll_of_other keepsTo agree respects kept (checkedAt document number)
          rw [List.filter_cons_of_neg (by rw [keepsTo.liesIn_eq, kept]; exact Bool.false_ne_true),
            nothing, List.nil_append]
          exact later agreeAfter

end UniqueNames

namespace Runner

open UniqueNames

/-- Every visit is of a document that keeps to its path. -/
theorem keepsTo_of_mem_visits {documents : List Document}
    (parsed : ∀ document ∈ documents, ∃ path, document.KeepsTo path)
    {visit : Document × Nat} (member : visit ∈ visits documents) :
    visit.1 ∈ documents ∧ ∃ path, visit.1.KeepsTo path := by
  obtain ⟨document, known, inside⟩ := List.mem_flatMap.1 member
  obtain ⟨number, -, rfl⟩ := List.mem_map.1 inside
  exact ⟨known, parsed document known⟩

theorem visits_append (first second : List Document) :
    visits (first ++ second) = visits first ++ visits second :=
  List.flatMap_append

/-- The nodes of kept documents are visited in the same order when the others are left out. -/
theorem filter_visits (keeps : Document → Bool) (documents : List Document) :
    (visits documents).filter (fun visit => keeps visit.1) = visits (documents.filter keeps) := by
  induction documents with
  | nil => rfl
  | cons document rest inductionHypothesis =>
      have split : visits (document :: rest) =
          (document.walk.map fun number => (document, number)) ++ visits rest := rfl
      have same : ((fun visit : Document × Nat => keeps visit.1) ∘ fun number => (document, number)) =
          fun _ => keeps document := rfl
      rw [split, List.filter_append, inductionHypothesis, List.filter_map, same]
      cases kept : keeps document with
      | true =>
          rw [List.filter_cons_of_pos kept, List.filter_true]
          rfl
      | false =>
          rw [List.filter_cons_of_neg (by simp [kept]), List.filter_false]
          rfl

/-- The problems in the files of a class are those of a pass over the documents of the class. -/
theorem filter_lint_default {keeps : Path → Bool} (respects : Path.RespectsAlike keeps)
    {documents : List Document} (parsed : ∀ document ∈ documents, ∃ path, document.KeepsTo path) :
    (Runner.default.lint documents).1.filter (fun problem => keeps problem.location.file) =
      (Runner.default.lint (documents.filter (Document.liesIn keeps))).1 := by
  have kept := filter_visitAll respects
    (fun visit (member : visit ∈ visits documents) => (keepsTo_of_mem_visits parsed member).2)
    (Ledger.AgreeOn.refl keeps (Ledger.ofMentions []))
  rw [filter_visits (Document.liesIn keeps)] at kept
  exact kept

/-- The problems of visits lie in the files of their documents. -/
theorem exists_document_of_mem_visitAll {documents : List Document}
    (parsed : ∀ document ∈ documents, ∃ path, document.KeepsTo path) {ledger : Ledger}
    {problem : Problem} (member : problem ∈ (visitAll [holding ledger] (visits documents)).2) :
    ∃ document ∈ documents, document.path? = some problem.location.file := by
  obtain ⟨visit, visited, same⟩ := exists_visit_of_mem_visitAll
    (fun visit member => (keepsTo_of_mem_visits parsed member).2) ledger member
  exact ⟨visit.1, (keepsTo_of_mem_visits parsed visited).1, same⟩

/-- This class holds the paths of the given documents. -/
def isPathOf (documents : List Document) (path : Path) : Bool :=
  documents.any (Document.liesIn fun own => own.alike path)

/-- The paths of some documents are a class. -/
theorem respectsAlike_isPathOf (documents : List Document) :
    Path.RespectsAlike (isPathOf documents) := by
  intro first second same
  rw [Path.alike_iff] at same
  have sameFiles : (fun own : Path => own.alike first) = fun own => own.alike second := by
    funext own
    rw [Bool.eq_iff_iff, Path.alike_iff, Path.alike_iff, same]
  rw [isPathOf, isPathOf, sameFiles]

/-- The path of a document is among the paths of the documents. -/
theorem isPathOf_of_mem {documents : List Document} {document : Document} {path : Path}
    (member : document ∈ documents) (found : document.path? = some path) :
    isPathOf documents path = true := by
  refine List.any_eq_true.2 ⟨document, member, ?_⟩
  rw [Document.liesIn, found, Option.any_some, Path.alike_iff]

/-- Documents of a class report the same after documents outside of it as they do alone, because the
problems of the whole pass that lie in the class are exactly theirs. -/
theorem lint_default_append {keeps : Path → Bool} (respects : Path.RespectsAlike keeps)
    {first second : List Document}
    (outside : ∀ document ∈ first, ∃ path, document.KeepsTo path ∧ keeps path = false)
    (inside : ∀ document ∈ second, ∃ path, document.KeepsTo path ∧ keeps path = true) :
    (Runner.default.lint (first ++ second)).1 =
      (Runner.default.lint first).1 ++ (Runner.default.lint second).1 := by
  have firstParsed : ∀ document ∈ first, ∃ path, document.KeepsTo path :=
    fun document member => (outside document member).imp fun _ => And.left
  have secondParsed : ∀ document ∈ second, ∃ path, document.KeepsTo path :=
    fun document member => (inside document member).imp fun _ => And.left
  have noFirst : first.filter (Document.liesIn keeps) = [] := by
    rw [List.filter_eq_nil_iff]
    intro document member
    obtain ⟨path, keepsTo, dropped⟩ := outside document member
    rw [keepsTo.liesIn_eq, dropped]
    exact Bool.false_ne_true
  have allSecond : second.filter (Document.liesIn keeps) = second := by
    rw [List.filter_eq_self]
    intro document member
    obtain ⟨path, keepsTo, kept⟩ := inside document member
    rw [keepsTo.liesIn_eq, kept]
  let later := (visitAll [holding (Ledger.ofMentions ([] ++ mentionsIn (visits first)))]
    (visits second)).2
  have split : (Runner.default.lint (first ++ second)).1 =
      (Runner.default.lint first).1 ++ later := by
    show (visitAll Runner.default.cleared.linters (visits (first ++ second))).2 = _
    rw [visits_append, visitAll_append, Runner.default_cleared, visitAll_holding_fst]
    rfl
  have laterKept : later.filter (fun problem => keeps problem.location.file) = later := by
    rw [List.filter_eq_self]
    intro problem member
    obtain ⟨document, known, same⟩ := exists_document_of_mem_visitAll secondParsed member
    obtain ⟨path, keepsTo, kept⟩ := inside document known
    rw [keepsTo.root] at same
    cases same
    exact kept
  have kept := filter_lint_default respects (List.forall_mem_append.2 ⟨firstParsed, secondParsed⟩)
  rw [split, List.filter_append, filter_lint_default respects firstParsed, laterKept,
    List.filter_append, noFirst, allSecond] at kept
  rw [split]
  exact congrArg _ kept

/-- Files do not influence each other. The problems at one path are those of a pass over the documents
at that path, and documents whose paths are all different from those before them report the same in
a pass of their own. -/
theorem files_do_not_interfere {documents : List Document}
    (parsed : ∀ document ∈ documents, ∃ path source, Document.parse path source = .ok document) :
    (∀ path : Path,
      (Runner.default.lint documents).1.filter (fun problem => problem.location.file.alike path) =
        (Runner.default.lint
          (documents.filter (Document.liesIn fun own => own.alike path))).1) ∧
    ∀ first second, documents = first ++ second →
      (∀ one ∈ first, ∀ path ∈ one.path?, ∀ other ∈ second,
        other.liesIn (fun own => own.alike path) = false) →
      (Runner.default.lint documents).1 =
        (Runner.default.lint first).1 ++ (Runner.default.lint second).1 := by
  have keepsTo : ∀ document ∈ documents, ∃ path, document.KeepsTo path := by
    intro document member
    obtain ⟨path, source, known⟩ := parsed document member
    exact ⟨path, Document.keepsTo_of_parse known⟩
  refine ⟨fun path => filter_lint_default (Path.respectsAlike_alike path) keepsTo, ?_⟩
  intro first second split apart
  subst split
  refine lint_default_append (respectsAlike_isPathOf second) ?_ ?_
  · intro document member
    obtain ⟨path, known⟩ := keepsTo document (List.mem_append_left _ member)
    refine ⟨path, known, List.any_eq_false.2 fun other otherMember => ?_⟩
    rw [apart document member path known.root other otherMember]
    exact Bool.false_ne_true
  · intro document member
    obtain ⟨path, known⟩ := keepsTo document (List.mem_append_right _ member)
    exact ⟨path, known, isPathOf_of_mem member known.root⟩

/-- One file is given under two spellings of its path, with another file in between. -/
theorem files_do_not_interfere_between_spellings :
    let path : Path := ⟨"x/a".toList⟩
    let spelling : Path := ⟨"x//a/".toList⟩
    let other : Path := ⟨"b".toList⟩
    let source := "Feature: F\nScenario: S\n".toList
    let document := fun path =>
      Document.ofFeature path (some ⟨1, "F".toList, [⟨2, "S".toList, .scenario⟩], []⟩)
    (∀ path, Document.parse path source = .ok (document path)) ∧
      (Runner.default.lint [document path, document spelling]).1.length = 1 ∧
      (Runner.default.lint [document path, document other, document spelling]).1.filter
          (fun problem => problem.location.file.alike path) =
        (Runner.default.lint [document path, document spelling]).1 ∧
      (Runner.default.lint [document path, document spelling, document other]).1 =
        (Runner.default.lint [document path, document spelling]).1 ++
          (Runner.default.lint [document other]).1 := by
  intro path spelling other source document
  have parsed : ∀ path, Document.parse path source = .ok (document path) := by
    intro path
    with_unfolding_all rfl
  have allParsed : ∀ paths : List Path, ∀ known ∈ paths.map document,
      ∃ path source, Document.parse path source = .ok known := by
    intro paths known member
    obtain ⟨path, -, rfl⟩ := List.mem_map.1 member
    exact ⟨path, source, parsed path⟩
  refine ⟨parsed, by decide +kernel, ?_, ?_⟩
  · exact (files_do_not_interfere (allParsed [path, other, spelling])).1 path
  · refine (files_do_not_interfere (allParsed [path, spelling, other])).2
      [document path, document spelling] [document other] rfl ?_
    intro one member own found known inside
    cases List.mem_singleton.1 inside
    rcases List.mem_pair.1 member with rfl | rfl
    all_goals
      cases found
      decide +kernel

end Runner

end FeatureLint
