import FeatureLint.Loader
import FeatureLint.Proofs.Isolation
import Mathlib.Data.List.Forall2

/-!
This file says what depends on the paths by which files are called. A renaming relates the paths of the same files
before and after, and it has to keep files apart that were apart and together that were together. Main statements:
files with the same texts are loaded alike under other paths, and a pass over documents that differ only in their
paths finds the same problems on the same lines.
-/

namespace FeatureLint

/-- A renaming keeps paths apart when it tells exactly those paths apart that were told apart before. -/
def Path.KeepsApart (renames : Path → Path → Prop) : Prop :=
  ∀ ⦃first second one other : Path⦄, renames first one → renames second other →
    (one.components = other.components ↔ first.components = second.components)

/-- A renamed problem differs at most in its file. -/
structure Problem.Renamed (renames : Path → Path → Prop) (problem other : Problem) : Prop where
  linter : other.linter = problem.linter
  message : other.message = problem.message
  line : other.location.line = problem.location.line
  file : renames problem.location.file other.location.file

/-- Renamed documents are laid out from the same feature. -/
def Document.Renamed (renames : Path → Path → Prop) (document other : Document) : Prop :=
  ∃ path another feature?, renames path another ∧ document = ofFeature path feature? ∧
    other = ofFeature another feature?

/-- A renamed error is about the same file and has the same cause. -/
inductive LoadError.Renamed (renames : Path → Path → Prop) : LoadError → LoadError → Prop where
  | unreadable {file other : Path} (renamed : renames file other) (cause : FileError) :
      Renamed renames (.unreadable file cause) (.unreadable other cause)
  | malformed {file other : Path} (renamed : renames file other) (text : Text) (error : ParseError) :
      Renamed renames (.malformed file text error) (.malformed other text error)

section Weaken

variable {renames other : Path → Path → Prop} (weaker : ∀ file another, renames file another → other file another)

include weaker

/-- A problem that is renamed by some renamings is renamed by more of them. -/
theorem Problem.Renamed.imp {problem another : Problem} (renamed : problem.Renamed renames another) :
    problem.Renamed other another :=
  ⟨renamed.linter, renamed.message, renamed.line, weaker _ _ renamed.file⟩

/-- An error that is renamed by some renamings is renamed by more of them. -/
theorem LoadError.Renamed.imp {error another : LoadError} (renamed : error.Renamed renames another) :
    error.Renamed other another := by
  cases renamed with
  | unreadable renamed cause => exact .unreadable (weaker _ _ renamed) cause
  | malformed renamed text error => exact .malformed (weaker _ _ renamed) text error

end Weaken

namespace Document

variable (first second : Path) (feature? : Option Feature) (number : Nat)

/-- Tags do not depend on the path of a document. -/
theorem is_renamed (tag : Tag) :
    (ofFeature second feature?).is number tag = (ofFeature first feature?).is number tag := by
  cases number <;> rfl

theorem name?_renamed : (ofFeature second feature?).name? number = (ofFeature first feature?).name? number := by
  cases number <;> rfl

theorem line?_renamed : (ofFeature second feature?).line? number = (ofFeature first feature?).line? number := by
  cases number <;> rfl

theorem parent?_renamed :
    (ofFeature second feature?).parent? number = (ofFeature first feature?).parent? number := by
  cases number <;> rfl

theorem ancestors_renamed :
    (ofFeature second feature?).ancestors number = (ofFeature first feature?).ancestors number := by
  induction number using Nat.strongRecOn with
  | ind number inductionHypothesis =>
      have same := parent?_renamed first second feature? number
      cases above : (ofFeature first feature?).parent? number with
      | none =>
          rw [above] at same
          rw [ancestors_of_parent?_eq_none above, ancestors_of_parent?_eq_none same]
      | some parent =>
          rw [above] at same
          rw [ancestors_of_parent? above, ancestors_of_parent? same,
            inductionHypothesis parent (lt_of_parent? above)]

theorem ancestor?_renamed (tag : Tag) :
    (ofFeature second feature?).ancestor? number tag = (ofFeature first feature?).ancestor? number tag := by
  simp only [ancestor?, ancestors_renamed first second, is_renamed first second]

theorem childrenWith_renamed (tag : Tag) :
    (ofFeature second feature?).childrenWith number tag = (ofFeature first feature?).childrenWith number tag := by
  simp only [childrenWith, is_renamed first second]
  rfl

theorem cells_renamed : (ofFeature second feature?).cells number = (ofFeature first feature?).cells number := by
  have sameValue : (fun child => ((ofFeature second feature?).kind? child).bind Kind.value?) =
      fun child => ((ofFeature first feature?).kind? child).bind Kind.value? := by
    funext child
    cases child <;> rfl
  rw [cells, cells, childrenWith_renamed first second, sameValue]

/-- The names in a file do not depend on what the file is called. -/
theorem namesOf_renamed :
    (ofFeature second feature?).namesOf number = (ofFeature first feature?).namesOf number := by
  have sameTables : (ofFeature second feature?).namesOfTable = (ofFeature first feature?).namesOfTable := by
    funext template table
    simp only [namesOfTable, childrenWith_renamed first second, cells_renamed first second]
  cases number with
  | zero => rfl
  | succ index =>
      have sameKind : (ofFeature second feature?).kind? (index + 1) =
          (ofFeature first feature?).kind? (index + 1) := rfl
      rw [namesOf, namesOf, childrenWith_renamed first second, sameTables, sameKind]

/-- A walk from any stack does not depend on the path. -/
theorem walkFrom_renamed (limit : Nat) (stack : List Nat) :
    (ofFeature second feature?).walkFrom limit stack = (ofFeature first feature?).walkFrom limit stack := by
  induction limit generalizing stack with
  | zero => cases stack <;> rfl
  | succ limit inductionHypothesis =>
      cases stack with
      | nil => rfl
      | cons number stack =>
          rw [walkFrom, walkFrom, inductionHypothesis]
          rfl

theorem walk_renamed : (ofFeature second feature?).walk = (ofFeature first feature?).walk :=
  walkFrom_renamed first second feature? _ _

/-- A scope of a renamed file has the new path and the old rule. -/
theorem scopeOf?_renamed :
    (ofFeature second feature?).scopeOf? number =
      ((ofFeature first feature?).scopeOf? number).map fun scope => ⟨second, scope.rule?⟩ := by
  unfold scopeOf?
  rw [ancestor?_renamed first second, ancestors_renamed first second]
  cases above : (ofFeature first feature?).ancestor? number .file with
  | none => rfl
  | some file =>
      -- Only the root is a file.
      have isRoot := eq_zero_of_is_file (forest_ofFeature first feature?) rfl (is_of_ancestor? above)
      subst isRoot
      have sameName : (ofFeature second feature?).name? = (ofFeature first feature?).name? := by
        funext ancestor
        exact name?_renamed first second feature? ancestor
      simp only [sameName, is_renamed first second]
      rfl

end Document

/-- A renamed mention differs at most in the file of its scope. -/
structure Mention.Renamed (renames : Path → Path → Prop) (mention other : Mention) : Prop where
  file : renames mention.scope.file other.scope.file
  rule : other.scope.rule? = mention.scope.rule?
  name : other.name = mention.name
  line : other.line = mention.line

section Pass

variable {renames : Path → Path → Prop}

/-- Renamed mentions record the same names as before. -/
theorem Mention.Renamed.records_eq (apart : Path.KeepsApart renames) {mention other asked another : Mention}
    (renamed : mention.Renamed renames other) (renamedToo : asked.Renamed renames another) :
    other.records another.name another.scope = mention.records asked.name asked.scope := by
  rw [Bool.eq_iff_iff, records_iff, records_iff, Scope.alike_iff, Scope.alike_iff,
    apart renamed.file renamedToo.file, renamed.rule, renamedToo.rule, renamed.name, renamedToo.name]

/-- The lines of a name in a scope do not depend on what the files are called. -/
theorem Mention.Renamed.linesOf_eq (apart : Path.KeepsApart renames) {mentions others : List Mention}
    (renamed : List.Forall₂ (Renamed renames) mentions others) {asked another : Mention}
    (renamedToo : asked.Renamed renames another) :
    linesOf others another.name another.scope = linesOf mentions asked.name asked.scope := by
  induction renamed with
  | nil => rfl
  | cons first _ inductionHypothesis =>
      have sameRecords := first.records_eq apart renamedToo
      rw [linesOf, linesOf, List.filter_cons, List.filter_cons, sameRecords]
      split
      · rw [List.map_cons, List.map_cons, first.line]
        exact congrArg _ inductionHypothesis
      · exact inductionHypothesis

/-- The first results for related items are related when the results for each item are. -/
theorem rel_findSome? {Item Other Result Renamed : Type} {items : List Item} {others : List Other}
    {relation : Item → Other → Prop} {result : Result → Renamed → Prop}
    {find? : Item → Option Result} {findToo? : Other → Option Renamed}
    (related : List.Forall₂ relation items others)
    (each : ∀ item other, relation item other → Option.Rel result (find? item) (findToo? other)) :
    Option.Rel result (items.findSome? find?) (others.findSome? findToo?) := by
  induction related with
  | nil => exact .none
  | @cons item other _ _ first _ inductionHypothesis =>
      have here := each item other first
      rw [List.findSome?_cons, List.findSome?_cons]
      generalize find? item = found? at here ⊢
      generalize findToo? other = foundToo? at here ⊢
      cases here with
      | none => exact inductionHypothesis
      | some same => exact .some same

/-- Related options make related lists. -/
theorem rel_toList {Result Renamed : Type} {result : Result → Renamed → Prop} {found? : Option Result}
    {foundToo? : Option Renamed} (related : Option.Rel result found? foundToo?) :
    List.Forall₂ result found?.toList foundToo?.toList := by
  cases related with
  | none => exact .nil
  | some same => exact .cons same .nil

namespace UniqueNames

variable (feature? : Option Feature) (number : Nat)

/-- The words for a node do not depend on the path. -/
theorem subject_renamed (first second : Path) :
    subject (.ofFeature second feature?) number = subject (.ofFeature first feature?) number := by
  rw [subject, subject, Document.is_renamed first second]

/-- What is checked at a visit does not depend on the path. -/
theorem checkedAt_renamed (first second : Path) :
    checkedAt (.ofFeature second feature?) number = checkedAt (.ofFeature first feature?) number := by
  simp only [checkedAt, Document.is_renamed first second, Document.childrenWith_renamed first second,
    Document.ancestor?_renamed first second]

variable {first second : Path}

/-- The mentions of a node are renamed with its document. -/
theorem mentionsOf_renamed (renamed : renames first second) :
    List.Forall₂ (Mention.Renamed renames) (mentionsOf (.ofFeature first feature?) number)
      (mentionsOf (.ofFeature second feature?) number) := by
  unfold mentionsOf
  rw [Document.scopeOf?_renamed first second, Document.line?_renamed first second,
    Document.namesOf_renamed first second]
  cases found : (Document.ofFeature first feature?).scopeOf? number with
  | none => exact .nil
  | some scope =>
      have own : scope = ⟨first, scope.rule?⟩ := by
        have same := Document.scopeOf?_renamed first first feature? number
        rw [found] at same
        exact Option.some.inj same
      cases (Document.ofFeature first feature?).line? number with
      | none => exact .nil
      | some line =>
          rw [Option.map_some, List.forall₂_map_left_iff, List.forall₂_map_right_iff, List.forall₂_same]
          intro name _
          exact ⟨by rwa [own], rfl, rfl, rfl⟩

/-- A ledger of renamed mentions knows the same duplicates. -/
theorem duplicate?_renamed (apart : Path.KeepsApart renames) {history past : List Mention}
    (renamed : List.Forall₂ (Mention.Renamed renames) history past) {mention other : Mention}
    (renamedToo : mention.Renamed renames other) :
    (Ledger.ofMentions past).duplicate? other.name other.scope =
      (Ledger.ofMentions history).duplicate? mention.name mention.scope := by
  rw [Ledger.duplicate?, Ledger.duplicate?, Ledger.occurrences_ofMentions, Ledger.occurrences_ofMentions,
    Mention.Renamed.linesOf_eq apart renamed renamedToo]

variable {history past : List Mention}

/-- A check under another path reports the same problem. -/
theorem check_renamed (apart : Path.KeepsApart renames) (renamed : renames first second)
    (histories : List.Forall₂ (Mention.Renamed renames) history past) :
    Option.Rel (Problem.Renamed renames)
      (check (.ofFeature first feature?) number (Ledger.ofMentions history)).2
      (check (.ofFeature second feature?) number (Ledger.ofMentions past)).2 := by
  have mentions := mentionsOf_renamed feature? number renamed
  have histories := List.rel_append histories mentions
  rw [check_eq, check_eq, Ledger.ofMentions, ← Ledger.enterAll_append, Ledger.ofMentions,
    ← Ledger.enterAll_append]
  apply rel_findSome? mentions
  intro mention other renamedMention
  have same := duplicate?_renamed apart histories renamedMention
  rw [Ledger.ofMentions, Ledger.ofMentions] at same
  rw [same]
  cases (Ledger.empty.enterAll (history ++ mentionsOf (.ofFeature first feature?) number)).duplicate?
      mention.name mention.scope with
  | none => exact .none
  | some duplicate =>
      refine .some ⟨rfl, ?_, renamedMention.line, renamedMention.file⟩
      rw [problemOf, problemOf, subject_renamed feature? number first second, renamedMention.name]

/-- Checks of renamed documents report the renamed problem, or none in both cases. -/
theorem checkAll_renamed (apart : Path.KeepsApart renames) (renamed : renames first second)
    (histories : List.Forall₂ (Mention.Renamed renames) history past) (numbers : List Nat) :
    Option.Rel (Problem.Renamed renames)
      (checkAll (.ofFeature first feature?) numbers (Ledger.ofMentions history)).2
      (checkAll (.ofFeature second feature?) numbers (Ledger.ofMentions past)).2 := by
  induction numbers generalizing history past with
  | nil => exact .none
  | cons number rest inductionHypothesis =>
      have here := check_renamed feature? number apart renamed histories
      have later := inductionHypothesis
        (List.rel_append histories (mentionsOf_renamed feature? number renamed))
      simp only [checkAll, check_ofMentions_fst]
      generalize (check (.ofFeature first feature?) number (Ledger.ofMentions history)).2 = problem? at here ⊢
      generalize (check (.ofFeature second feature?) number (Ledger.ofMentions past)).2 = other? at here ⊢
      cases here with
      | none => exact later
      | some same => exact .some same

/-- The mentions of a visit are renamed with its document. -/
theorem mentionsAt_renamed (renamed : renames first second) :
    List.Forall₂ (Mention.Renamed renames) (mentionsAt (.ofFeature first feature?) number)
      (mentionsAt (.ofFeature second feature?) number) := by
  rw [mentionsAt, mentionsAt, checkedAt_renamed feature? number first second]
  induction checkedAt (.ofFeature first feature?) number with
  | nil => exact .nil
  | cons checked rest inductionHypothesis =>
      exact List.rel_append (mentionsOf_renamed feature? checked renamed) inductionHypothesis

/-- Visits of renamed documents at the same nodes find the same problems. -/
theorem visitAll_renamed (apart : Path.KeepsApart renames) {visits others : List (Document × Nat)}
    (renamed : List.Forall₂
      (fun visit other => visit.1.Renamed renames other.1 ∧ other.2 = visit.2) visits others)
    (histories : List.Forall₂ (Mention.Renamed renames) history past) :
    List.Forall₂ (Problem.Renamed renames)
      (Runner.visitAll [holding (Ledger.ofMentions history)] visits).2
      (Runner.visitAll [holding (Ledger.ofMentions past)] others).2 := by
  induction renamed generalizing history past with
  | nil => exact .nil
  | @cons visit other visits others first _ inductionHypothesis =>
      obtain ⟨document, visited⟩ := visit
      obtain ⟨another, number⟩ := other
      obtain ⟨⟨path, newPath, feature?, renamedPath, rfl, rfl⟩, rfl⟩ := first
      have here := checkAll_renamed feature? apart renamedPath histories
        (checkedAt (.ofFeature path feature?) number)
      have later := inductionHypothesis
        (List.rel_append histories (mentionsAt_renamed feature? number renamedPath))
      rw [visitAll_holding_cons, visitAll_holding_cons, evaluate, evaluate, checkAll_ofMentions_fst,
        checkAll_ofMentions_fst]
      apply List.rel_append _ later
      rw [checkedAt_renamed feature? number path newPath]
      exact rel_toList here

end UniqueNames

/-- A pass over renamed documents finds the same problems on the same lines. -/
theorem Runner.lint_default_renamed (apart : Path.KeepsApart renames) {documents others : List Document}
    (renamed : List.Forall₂ (Document.Renamed renames) documents others) :
    List.Forall₂ (Problem.Renamed renames) (Runner.default.lint documents).1
      (Runner.default.lint others).1 := by
  have visited : List.Forall₂ (fun visit other => visit.1.Renamed renames other.1 ∧ other.2 = visit.2)
      (visits documents) (visits others) := by
    induction renamed with
    | nil => exact .nil
    | cons first _ inductionHypothesis =>
        apply List.rel_append _ inductionHypothesis
        obtain ⟨path, newPath, feature?, renamedPath, rfl, rfl⟩ := first
        show List.Forall₂ _ (((Document.ofFeature path feature?).walk.map fun number => _))
          (((Document.ofFeature newPath feature?).walk.map fun number => _))
        rw [Document.walk_renamed path newPath, List.forall₂_map_left_iff, List.forall₂_map_right_iff,
          List.forall₂_same]
        intro number _
        exact ⟨⟨path, newPath, feature?, renamedPath, rfl, rfl⟩, rfl⟩
  exact UniqueNames.visitAll_renamed apart visited .nil

end Pass

namespace Loader

variable {renames : Path → Path → Prop} {tree after : FileTree}

/-- Renamed files are loaded alike when they fail with renamed errors or give renamed documents. -/
def LoadsAlike (renames : Path → Path → Prop) :
    Except LoadError (List Document) → Except LoadError (List Document) → Prop
  | .error error, .error other => error.Renamed renames other
  | .ok documents, .ok others => List.Forall₂ (Document.Renamed renames) documents others
  | _, _ => False

/-- Files with the same texts are loaded alike, whatever they are called. -/
theorem loadFiles_renamed {files others : List Path}
    (renamed : List.Forall₂ (fun file other => renames file other ∧ after.readText other = tree.readText file)
      files others) : LoadsAlike renames (loadFiles tree files) (loadFiles after others) := by
  induction renamed with
  | nil => exact List.Forall₂.nil
  | @cons file other files others first _ inductionHypothesis =>
      obtain ⟨renamed, sameText⟩ := first
      rw [loadFiles, loadFiles, loadFile, loadFile, sameText]
      cases tree.readText file with
      | error cause => exact .unreadable renamed cause
      | ok text =>
          simp only [Document.parse]
          cases Feature.ofLines (Line.ofSource text) with
          | error error => exact .malformed renamed text error
          | ok feature? =>
              simp only [Except.map]
              generalize loadFiles tree files = loaded at inductionHypothesis ⊢
              generalize loadFiles after others = loadedToo at inductionHypothesis ⊢
              cases loaded <;> cases loadedToo
              case error.error => exact inductionHypothesis
              case ok.ok =>
                exact .cons ⟨file, other, feature?, renamed, rfl, rfl⟩ inductionHypothesis
              all_goals exact inductionHypothesis.elim

end Loader

end FeatureLint
