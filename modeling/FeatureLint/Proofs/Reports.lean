import FeatureLint.Proofs.Duplicates
import FeatureLint.Proofs.Recording
import Mathlib.Data.List.Basic

/-!
This file says exactly which problem each visit of a pass reports. A visit has blocks: a scenario or
outline outside of all rules is its own block, and a rule has the scenarios and then the outlines right
below it. Each block mentions its names in the scope of the visit. Main statement: a visit reports a
problem exactly when a name of one of its blocks was mentioned at least twice in the pass up to and
including that block, and then it reports the first such name of the first such block.
-/

namespace FeatureLint

/-- A separator is put between the pieces and nowhere else. -/
theorem Text.joinWith_eq_intercalate (separator : Text) (pieces : List Text) :
    joinWith separator pieces = separator.intercalate pieces := by
  induction pieces with
  | nil => rfl
  | cons piece rest inductionHypothesis =>
      cases rest with
      | nil => simp [joinWith]
      | cons second others =>
          show piece ++ separator ++ joinWith separator (second :: others) = _
          rw [inductionHypothesis, List.intercalate_cons_cons]

namespace Document

/-- This is the path of the nearest file above a node. -/
def fileAbove? (document : Document) (number : Nat) : Option Path :=
  (document.ancestor? number .file).bind fun file => (document.kind? file).bind Kind.path?

/-- The scope of a node has the path of the file above it. -/
theorem scopeOf?_eq (document : Document) (number : Nat) :
    document.scopeOf? number = (document.fileAbove? number).map fun path =>
      ⟨path, (((document.ancestors number).takeWhile fun ancestor =>
        !document.is ancestor .file).find? fun ancestor =>
          document.is ancestor .rule).bind document.name?⟩ := by
  unfold scopeOf? fileAbove?
  cases document.ancestor? number .file with
  | none => rfl
  | some file =>
      cases found : (document.kind? file).bind Kind.path? with
      | none => simp [found]
      | some path => simp [found]

/-- Right below a rule the scope is that of the rule in the file of the rule. -/
theorem scopeOf?_of_rule {document : Document} {number rule : Nat} {name : Text}
    (below : document.parent? number = some rule)
    (isRule : document.kind? rule = some (.rule name)) :
    document.scopeOf? number = (document.fileAbove? rule).map fun path => ⟨path, some name⟩ := by
  have notFile : document.is rule .file = false := by simp [is, isRule, Kind.tag]
  have isRuleTag : document.is rule .rule = true := by simp [is, isRule, Kind.tag]
  have sameFile : document.fileAbove? number = document.fileAbove? rule := by
    simp [fileAbove?, ancestor?, ancestors_of_parent? below, notFile]
  rw [scopeOf?_eq, sameFile, ancestors_of_parent? below]
  simp [notFile, isRuleTag, name?, isRule, Kind.name?]

/-- Outside of all rules the scope is that of the file. -/
theorem scopeOf?_of_outside {document : Document} {number : Nat}
    (outside : (document.ancestor? number .rule).isNone = true) :
    document.scopeOf? number = (document.fileAbove? number).map fun path => ⟨path, none⟩ := by
  rw [Option.isNone_iff_eq_none, ancestor?, List.find?_eq_none] at outside
  have noRule : ((document.ancestors number).takeWhile fun ancestor =>
      !document.is ancestor .file).find? (fun ancestor => document.is ancestor .rule) = none := by
    rw [List.find?_eq_none]
    intro ancestor member
    exact outside ancestor ((List.takeWhile_sublist _).subset member)
  rw [scopeOf?_eq, noRule]
  rfl

end Document

namespace UniqueNames

/-- A block of a visit is a scenario or outline with the scope in which its names are mentioned. -/
structure CheckedBlock where
  number : Nat
  scope : Scope
deriving DecidableEq, Repr

/-- These are the blocks of the visit of a node. -/
def blocksAt (document : Document) (number : Nat) : List CheckedBlock :=
  match document.fileAbove? number, document.kind? number with
  | some path, some (.rule name) =>
      (document.childrenWith number .scenario ++ document.childrenWith number .outline).map
        fun child => ⟨child, path, some name⟩
  | some path, some (.scenario _) | some path, some (.outline _) =>
      if (document.ancestor? number .rule).isNone then [⟨number, path, none⟩] else []
  | _, _ => []

/-- A block mentions its names in order, all on its own line. -/
def CheckedBlock.mentions (document : Document) (block : CheckedBlock) : List Mention :=
  match document.line? block.number with
  | some line => (document.namesOf block.number).map fun name => ⟨block.scope, name, line⟩
  | none => []

/-- A message says whether a scenario has the name or an outline gives it. -/
def CheckedBlock.subject (document : Document) (block : CheckedBlock) : Text :=
  match document.kind? block.number with
  | some (.outline _) => "Scenario name created by Scenario Outline".toList
  | _ => "Scenario name".toList

/-- A message cites the line where the name was mentioned first and then, separated by commas, all lines
where it was mentioned again. -/
def CheckedBlock.message (document : Document) (block : CheckedBlock) (name : Text) (first : Nat)
    (repeats : List Nat) : Text :=
  block.subject document ++ " '".toList ++ name ++
    "' is not unique. \n    Original name is on line: ".toList ++ Nat.toDigits 10 first ++
    " \n    Duplicate is on: ".toList ++ ", ".toList.intercalate (repeats.map (Nat.toDigits 10))

/-- This is the problem of a block on the given line that repeats a name. -/
def CheckedBlock.problem (document : Document) (block : CheckedBlock) (line : Nat) (name : Text)
    (first : Nat) (repeats : List Nat) : Problem :=
  ⟨"UniqueScenarioNamesLinter".toList, block.message document name first repeats, block.scope.file,
    line⟩

/-- The linter and the block speak of the name in the same way. -/
theorem subject_eq (document : Document) (block : CheckedBlock) :
    subject document block.number = block.subject document := by
  unfold subject CheckedBlock.subject Document.is
  cases document.kind? block.number with
  | none => rfl
  | some kind => cases kind <;> rfl

/-- The linter writes its problems with the words of the block and the lines of the duplicate. -/
theorem problemOf_eq (document : Document) (block : CheckedBlock) (line : Nat) (name : Text)
    (duplicate : Duplicate) :
    problemOf document block.number ⟨block.scope, name, line⟩ duplicate =
      block.problem document line name duplicate.first duplicate.repeats := by
  have repeats : duplicate.repeatsText =
      ", ".toList.intercalate (duplicate.repeats.map (Nat.toDigits 10)) :=
    Text.joinWith_eq_intercalate _ _
  rw [problemOf, message, subject_eq, repeats]
  rfl

/-- The blocks of a visit are the nodes that are checked in it, unless there is no file. -/
theorem checkedAt_of_fileAbove? {document : Document} {number : Nat} {path : Path}
    (inFile : document.fileAbove? number = some path) :
    checkedAt document number = (blocksAt document number).map CheckedBlock.number := by
  unfold blocksAt
  rw [inFile]
  cases found : document.kind? number with
  | none =>
      have notRule : document.is number .rule = false := by simp [Document.is, found]
      have unnamed : document.isNamed number = false := by
        simp [Document.isNamed, Document.is, found]
      simp [checkedAt_of_not_is_rule notRule, unnamed]
  | some kind =>
      cases isRule : document.is number .rule with
      | true =>
          rw [checkedAt_of_is_rule isRule]
          cases kind <;> simp [Document.is, found, Kind.tag] at isRule
          simp [Function.comp_def]
      | false =>
          rw [checkedAt_of_not_is_rule isRule]
          cases kind <;> simp [Document.is, found, Kind.tag] at isRule <;>
            cases (document.ancestor? number .rule).isNone <;>
              simp [Document.isNamed, Document.is, found, Kind.tag]

/-- Each block of a visit stands in its own scope. -/
theorem scopeOf?_of_mem_blocksAt {document : Document} {number : Nat} {block : CheckedBlock}
    (member : block ∈ blocksAt document number) :
    document.scopeOf? block.number = some block.scope := by
  unfold blocksAt at member
  split at member
  · next path name inFile isRule =>
      obtain ⟨child, childMember, rfl⟩ := List.mem_map.1 member
      have below : document.parent? child = some number := by
        rcases List.mem_append.1 childMember with inFirst | inSecond
        · exact ((mem_childrenWith_iff _ _ _ _).1 inFirst).1
        · exact ((mem_childrenWith_iff _ _ _ _).1 inSecond).1
      rw [Document.scopeOf?_of_rule below isRule, inFile]
      rfl
  · next path _ inFile _ =>
      obtain ⟨outside, alone⟩ := List.mem_ite_nil_right.1 member
      cases List.mem_singleton.1 alone
      rw [Document.scopeOf?_of_outside outside, inFile]
      rfl
  · next path _ inFile _ =>
      obtain ⟨outside, alone⟩ := List.mem_ite_nil_right.1 member
      cases List.mem_singleton.1 alone
      rw [Document.scopeOf?_of_outside outside, inFile]
      rfl
  · cases member

/-- What the check of a block records are the mentions of the block. -/
theorem mentionsOf_of_mem_blocksAt {document : Document} {number : Nat} {block : CheckedBlock}
    (member : block ∈ blocksAt document number) :
    mentionsOf document block.number = block.mentions document := by
  unfold mentionsOf CheckedBlock.mentions
  rw [scopeOf?_of_mem_blocksAt member]
  cases document.line? block.number <;> rfl

/-- Without a file above a node, nothing that is checked at its visit has mentions. -/
theorem mentionsOf_of_mem_checkedAt {document : Document} {number checked : Nat}
    (missing : document.fileAbove? number = none) (member : checked ∈ checkedAt document number) :
    mentionsOf document checked = [] := by
  obtain ⟨named, place⟩ := (mem_checkedAt_iff document number checked).1 member
  have unscoped : document.scopeOf? checked = none := by
    rcases place with ⟨rfl, outside⟩ | ⟨below, isRule⟩
    · rw [Document.scopeOf?_of_outside outside, missing]
      rfl
    · obtain ⟨kind, found, isRuleTag⟩ := (Document.is_iff document number .rule).1 isRule
      cases kind <;> cases isRuleTag
      rw [Document.scopeOf?_of_rule below found, missing]
      rfl
  simp [mentionsOf, unscoped]

/-- A visit records the mentions of its blocks. -/
theorem mentionsAt_eq (document : Document) (number : Nat) :
    mentionsAt document number =
      (blocksAt document number).flatMap (CheckedBlock.mentions document) := by
  unfold mentionsAt
  cases inFile : document.fileAbove? number with
  | none =>
      have noBlocks : blocksAt document number = [] := by simp [blocksAt, inFile]
      rw [noBlocks, List.flatMap_nil, List.flatMap_eq_nil_iff]
      exact fun checked => mentionsOf_of_mem_checkedAt inFile
  | some path =>
      rw [checkedAt_of_fileAbove? inFile, List.flatMap_map]
      exact List.flatMap_congr fun block => mentionsOf_of_mem_blocksAt

/-- A check reports the first mention of its node whose name has occurred twice so far. -/
theorem check_ofMentions_snd_eq_some_iff (document : Document) (number : Nat)
    (history : List Mention) (problem : Problem) :
    (check document number (Ledger.ofMentions history)).2 = some problem ↔
      ∃ skipped mention others duplicate,
        mentionsOf document number = skipped ++ mention :: others ∧
        (∀ other ∈ skipped, (Mention.linesOf (history ++ mentionsOf document number) other.name
          other.scope).length < 2) ∧
        Mention.linesOf (history ++ mentionsOf document number) mention.name mention.scope =
          duplicate.first :: duplicate.repeats ∧
        duplicate.repeats ≠ [] ∧ problem = problemOf document number mention duplicate := by
  rw [check_eq, Ledger.ofMentions, ← Ledger.enterAll_append, ← Ledger.ofMentions,
    List.findSome?_eq_some_iff]
  simp only [Option.map_eq_none_iff, Ledger.duplicate?_eq_none_iff, Option.map_eq_some_iff,
    Ledger.duplicate?_eq_some_iff, Ledger.occurrences_ofMentions]
  constructor
  · intro given
    obtain ⟨skipped, mention, others, split, ⟨duplicate, ⟨lines, more⟩, rfl⟩, alone⟩ := given
    exact ⟨skipped, mention, others, duplicate, split, alone, lines, more, rfl⟩
  · intro given
    obtain ⟨skipped, mention, others, duplicate, split, alone, lines, more, rfl⟩ := given
    exact ⟨skipped, mention, others, split, ⟨duplicate, ⟨lines, more⟩, rfl⟩, alone⟩

/-- Checks report the problem of the first check that has one. -/
theorem checkAll_ofMentions_snd_eq_some_iff (document : Document) (numbers : List Nat)
    (history : List Mention) (problem : Problem) :
    (checkAll document numbers (Ledger.ofMentions history)).2 = some problem ↔
      ∃ earlier number later, numbers = earlier ++ number :: later ∧
        (checkAll document earlier (Ledger.ofMentions history)).2 = none ∧
        (check document number (Ledger.ofMentions
          (history ++ earlier.flatMap (mentionsOf document)))).2 = some problem := by
  induction numbers generalizing history with
  | nil => simp [checkAll]
  | cons first rest inductionHypothesis =>
      simp only [checkAll, check_ofMentions_fst, Option.or_eq_some_iff, inductionHypothesis]
      constructor
      · intro given
        rcases given with found | ⟨quiet, earlier, number, later, rfl, quietLater, found⟩
        · exact ⟨[], first, rest, rfl, rfl, by simpa using found⟩
        · refine ⟨first :: earlier, number, later, rfl, ?_, ?_⟩
          · simp [checkAll, check_ofMentions_fst, quiet, quietLater]
          · simpa using found
      · intro given
        obtain ⟨earlier, number, later, split, quiet, found⟩ := given
        cases earlier with
        | nil =>
            cases split
            exact Or.inl (by simpa using found)
        | cons other earlier =>
            cases split
            simp only [checkAll, check_ofMentions_fst, Option.or_eq_none_iff] at quiet
            exact Or.inr ⟨quiet.1, earlier, number, later, rfl, quiet.2, by simpa using found⟩

/-- What a visit reports depends only on its blocks. -/
theorem evaluate_ofMentions_snd (document : Document) (number : Nat) (history : List Mention) :
    (evaluate document number (Ledger.ofMentions history)).2 =
      (checkAll document ((blocksAt document number).map CheckedBlock.number)
        (Ledger.ofMentions history)).2 := by
  unfold evaluate
  cases inFile : document.fileAbove? number with
  | some path => rw [checkedAt_of_fileAbove? inFile]
  | none =>
      have noBlocks : blocksAt document number = [] := by simp [blocksAt, inFile]
      rw [noBlocks]
      refine Option.eq_none_iff_forall_ne_some.2 fun problem reported => ?_
      obtain ⟨earlier, checked, later, split, -, found⟩ :=
        (checkAll_ofMentions_snd_eq_some_iff _ _ _ _).1 reported
      obtain ⟨skipped, mention, others, -, mentions, -⟩ :=
        (check_ofMentions_snd_eq_some_iff _ _ _ _).1 found
      have member : checked ∈ checkedAt document number := by simp [split]
      rw [mentionsOf_of_mem_checkedAt inFile member] at mentions
      simp at mentions

/-- These are the mentions of a pass up to and including a block of a visit. -/
def mentionsUpTo (history : List Mention) (document : Document) (earlier : List CheckedBlock)
    (block : CheckedBlock) : List Mention :=
  history ++ (earlier ++ [block]).flatMap (CheckedBlock.mentions document)

/-- These are the lines on which a name was mentioned under the key of a block. -/
def CheckedBlock.linesOf (block : CheckedBlock) (mentions : List Mention) (name : Text) : List Nat :=
  (mentions.filter fun mention => mention.scope.key = block.scope.key ∧ mention.name = name).map
    Mention.line

/-- The lines under the key of a block are those that an occurrence in its scope records. -/
theorem CheckedBlock.linesOf_eq (block : CheckedBlock) (mentions : List Mention) (name : Text) :
    block.linesOf mentions name = Mention.linesOf mentions name block.scope :=
  (Mention.linesOf_eq mentions name block.scope).symm

/-- A name is repeated at a block when it was mentioned at least twice up to and including it. -/
def RepeatedAt (history : List Mention) (document : Document) (earlier : List CheckedBlock)
    (block : CheckedBlock) (name : Text) : Prop :=
  2 ≤ (block.linesOf (mentionsUpTo history document earlier block) name).length

/-- Some block among several has a name that is repeated at it. -/
def HasRepeated (history : List Mention) (document : Document) (blocks : List CheckedBlock) : Prop :=
  ∃ earlier block later, blocks = earlier ++ block :: later ∧
    ∃ name ∈ document.namesOf block.number, RepeatedAt history document earlier block name

/-- A problem is about the first repeated name of the first block with one. It gives the first line of
the name as the original and the other lines as the duplicates, and stands on the line of the block. -/
def IsFirstRepeated (history : List Mention) (document : Document) (blocks : List CheckedBlock)
    (problem : Problem) : Prop :=
  ∃ earlier block later skipped name others line first repeats,
    blocks = earlier ++ block :: later ∧
    ¬ HasRepeated history document earlier ∧
    document.namesOf block.number = skipped ++ name :: others ∧
    (∀ other ∈ skipped, ¬ RepeatedAt history document earlier block other) ∧
    document.line? block.number = some line ∧
    block.linesOf (mentionsUpTo history document earlier block) name = first :: repeats ∧
    repeats ≠ [] ∧
    problem = block.problem document line name first repeats

/-- A name is repeated at the first block or at a later one, to which the first block is history. -/
theorem hasRepeated_cons_iff (history : List Mention) (document : Document) (block : CheckedBlock)
    (rest : List CheckedBlock) :
    HasRepeated history document (block :: rest) ↔
      (∃ name ∈ document.namesOf block.number, RepeatedAt history document [] block name) ∨
        HasRepeated (history ++ block.mentions document) document rest := by
  have shifted : ∀ earlier later, mentionsUpTo history document (block :: earlier) later =
      mentionsUpTo (history ++ block.mentions document) document earlier later := by
    intro earlier later
    simp [mentionsUpTo]
  constructor
  · intro given
    obtain ⟨earlier, found, later, split, name, member, again⟩ := given
    cases earlier with
    | nil =>
        cases split
        exact Or.inl ⟨name, member, again⟩
    | cons first earlier =>
        cases split
        rw [RepeatedAt, shifted] at again
        exact Or.inr ⟨earlier, found, later, rfl, name, member, again⟩
  · intro given
    rcases given with ⟨name, member, again⟩ | ⟨earlier, found, later, rfl, name, member, again⟩
    · exact ⟨[], block, rest, rfl, name, member, again⟩
    · refine ⟨block :: earlier, found, later, rfl, name, member, ?_⟩
      rw [RepeatedAt, shifted]
      exact again

/-- A number without a node has no names. -/
theorem namesOf_of_line?_eq_none {document : Document} {number : Nat}
    (missing : document.line? number = none) : document.namesOf number = [] := by
  rw [Document.line?, Option.map_eq_none_iff] at missing
  simp [Document.namesOf, Document.kind?, missing]

/-- The last block of a visit adds its mentions at the end. -/
theorem mentionsUpTo_eq (history : List Mention) (document : Document)
    (earlier : List CheckedBlock) (block : CheckedBlock) :
    mentionsUpTo history document earlier block =
      history ++ earlier.flatMap (CheckedBlock.mentions document) ++ block.mentions document := by
  simp [mentionsUpTo]

/-- The check of a block reports nothing exactly when no name of the block is repeated at it. -/
theorem check_block_eq_none_iff {document : Document} {block : CheckedBlock}
    (own : mentionsOf document block.number = block.mentions document) (history : List Mention)
    (earlier : List CheckedBlock) :
    (check document block.number (Ledger.ofMentions
      (history ++ earlier.flatMap (CheckedBlock.mentions document)))).2 = none ↔
      ∀ name ∈ document.namesOf block.number, ¬ RepeatedAt history document earlier block name := by
  rw [check_ofMentions_snd_eq_none_iff, own, ← mentionsUpTo_eq]
  simp only [RepeatedAt, CheckedBlock.linesOf_eq, Nat.not_le]
  unfold CheckedBlock.mentions
  cases onLine : document.line? block.number with
  | none => simp [namesOf_of_line?_eq_none onLine]
  | some line => simp

/-- The check of a block reports the first of its names that is repeated at it. -/
theorem check_block_eq_some_iff {document : Document} {block : CheckedBlock}
    (own : mentionsOf document block.number = block.mentions document) (history : List Mention)
    (earlier : List CheckedBlock) (problem : Problem) :
    (check document block.number (Ledger.ofMentions
      (history ++ earlier.flatMap (CheckedBlock.mentions document)))).2 = some problem ↔
      ∃ skipped name others line first repeats,
        document.namesOf block.number = skipped ++ name :: others ∧
        (∀ other ∈ skipped, ¬ RepeatedAt history document earlier block other) ∧
        document.line? block.number = some line ∧
        block.linesOf (mentionsUpTo history document earlier block) name = first :: repeats ∧
        repeats ≠ [] ∧
        problem = block.problem document line name first repeats := by
  rw [check_ofMentions_snd_eq_some_iff, own, ← mentionsUpTo_eq]
  simp only [RepeatedAt, CheckedBlock.linesOf_eq, Nat.not_le]
  cases onLine : document.line? block.number with
  | none => simp [CheckedBlock.mentions, onLine]
  | some line =>
      have listed : block.mentions document =
          (document.namesOf block.number).map fun name => ⟨block.scope, name, line⟩ := by
        simp [CheckedBlock.mentions, onLine]
      rw [listed]
      constructor
      · intro given
        obtain ⟨skipped, mention, others, duplicate, split, alone, lines, more, rfl⟩ := given
        obtain ⟨firstNames, restNames, names, rfl, rest⟩ := List.map_eq_append_iff.1 split
        obtain ⟨name, otherNames, rfl, rfl, rfl⟩ := List.map_eq_cons_iff.1 rest
        refine ⟨firstNames, name, otherNames, line, duplicate.first, duplicate.repeats, names, ?_, rfl,
          lines, more, problemOf_eq document block line name duplicate⟩
        intro other member
        exact alone ⟨block.scope, other, line⟩ (List.mem_map.2 ⟨other, member, rfl⟩)
      · intro given
        obtain ⟨skipped, name, others, _, first, repeats, names, alone, ⟨⟩, lines, more, rfl⟩ := given
        refine ⟨skipped.map fun name => ⟨block.scope, name, line⟩, ⟨block.scope, name, line⟩,
          others.map fun name => ⟨block.scope, name, line⟩, ⟨first, repeats⟩, ?_, ?_, lines, more,
          (problemOf_eq document block line name ⟨first, repeats⟩).symm⟩
        · rw [names, List.map_append, List.map_cons]
        · intro mention member
          obtain ⟨other, otherMember, rfl⟩ := List.mem_map.1 member
          exact alone other otherMember

section Blocks

variable {document : Document} {blocks : List CheckedBlock}
  (own : ∀ block ∈ blocks, mentionsOf document block.number = block.mentions document)

include own

/-- Checks of several blocks record the mentions of these blocks. -/
theorem flatMap_mentionsOf_blocks :
    (blocks.map CheckedBlock.number).flatMap (mentionsOf document) =
      blocks.flatMap (CheckedBlock.mentions document) := by
  rw [List.flatMap_map]
  exact List.flatMap_congr own

/-- Checks of several blocks report nothing exactly when no name is repeated at one of them. -/
theorem checkAll_blocks_eq_none_iff (history : List Mention) :
    (checkAll document (blocks.map CheckedBlock.number) (Ledger.ofMentions history)).2 = none ↔
      ¬ HasRepeated history document blocks := by
  induction blocks generalizing history with
  | nil => simp [checkAll, HasRepeated]
  | cons block rest inductionHypothesis =>
      have ownFirst := own block List.mem_cons_self
      have first := check_block_eq_none_iff ownFirst history []
      rw [List.flatMap_nil, List.append_nil] at first
      have later := inductionHypothesis (fun other member => own other (List.mem_cons_of_mem _ member))
        (history ++ block.mentions document)
      simp only [List.map_cons, checkAll, check_ofMentions_fst, Option.or_eq_none_iff, first, ownFirst,
        later, hasRepeated_cons_iff, not_or, not_exists, not_and]

/-- Checks of several blocks report exactly the first repeated name. -/
theorem checkAll_blocks_eq_some_iff (history : List Mention) (problem : Problem) :
    (checkAll document (blocks.map CheckedBlock.number) (Ledger.ofMentions history)).2 =
        some problem ↔
      IsFirstRepeated history document blocks problem := by
  rw [checkAll_ofMentions_snd_eq_some_iff]
  constructor
  · intro given
    obtain ⟨earlierNumbers, number, laterNumbers, split, quiet, found⟩ := given
    obtain ⟨earlier, rest, rfl, rfl, restSplit⟩ := List.map_eq_append_iff.1 split
    obtain ⟨block, later, rfl, rfl, rfl⟩ := List.map_eq_cons_iff.1 restSplit
    have ownEarlier : ∀ other ∈ earlier,
        mentionsOf document other.number = other.mentions document :=
      fun other member => own other (List.mem_append_left _ member)
    rw [checkAll_blocks_eq_none_iff ownEarlier] at quiet
    rw [flatMap_mentionsOf_blocks ownEarlier, check_block_eq_some_iff (own block (by simp))] at found
    obtain ⟨skipped, name, others, line, first, repeats, found⟩ := found
    exact ⟨earlier, block, later, skipped, name, others, line, first, repeats, rfl, quiet, found⟩
  · intro given
    obtain ⟨earlier, block, later, skipped, name, others, line, first, repeats, rfl, quiet, found⟩ :=
      given
    have ownEarlier : ∀ other ∈ earlier,
        mentionsOf document other.number = other.mentions document :=
      fun other member => own other (List.mem_append_left _ member)
    refine ⟨earlier.map CheckedBlock.number, block.number, later.map CheckedBlock.number,
      by simp, (checkAll_blocks_eq_none_iff ownEarlier history).2 quiet, ?_⟩
    rw [flatMap_mentionsOf_blocks ownEarlier, check_block_eq_some_iff (own block (by simp))]
    exact ⟨skipped, name, others, line, first, repeats, found⟩

end Blocks

/-- These are the mentions of the blocks of a sequence of visits. -/
def blockMentions (visits : List (Document × Nat)) : List Mention :=
  visits.flatMap fun visit =>
    (blocksAt visit.1 visit.2).flatMap (CheckedBlock.mentions visit.1)

/-- Visits record the mentions of their blocks. -/
theorem mentionsIn_eq_blockMentions (visits : List (Document × Nat)) :
    mentionsIn visits = blockMentions visits :=
  List.flatMap_congr fun visit _ => mentionsAt_eq visit.1 visit.2

/-- Every visit of a pass reports at most one problem. It reports one exactly when a name of one of its
blocks is repeated, and then it is the problem of the first repeated name. -/
theorem visit_reports_first_repeated (documents : List Document)
    (before after : List (Document × Nat)) (document : Document) (number : Nat)
    (visited : Runner.visits documents = before ++ (document, number) :: after) :
    let earlier := Runner.visitAll Runner.default.cleared.linters before
    let visit := Runner.visitEach document number earlier.1
    (Runner.default.lint documents).1 =
        earlier.2 ++ visit.2 ++ (Runner.visitAll visit.1 after).2 ∧
      visit.2.length ≤ 1 ∧
      (visit.2 ≠ [] ↔ HasRepeated (blockMentions before) document (blocksAt document number)) ∧
      ∀ problem, visit.2 = [problem] ↔
        IsFirstRepeated (blockMentions before) document (blocksAt document number) problem := by
  intro earlier visit
  have state : earlier.1 = [holding (Ledger.ofMentions (blockMentions before))] := by
    rw [← mentionsIn_eq_blockMentions, ← List.nil_append (mentionsIn before),
      ← visitAll_holding_fst, ← Runner.default_cleared]
  have reported : visit.2 = (checkAll document ((blocksAt document number).map CheckedBlock.number)
      (Ledger.ofMentions (blockMentions before))).2.toList := by
    show (Runner.visitEach document number earlier.1).2 = _
    rw [state, visitEach_holding, evaluate_ofMentions_snd]
  have own : ∀ block ∈ blocksAt document number,
      mentionsOf document block.number = block.mentions document :=
    fun block => mentionsOf_of_mem_blocksAt
  refine ⟨?_, ?_, ?_, ?_⟩
  · show (Runner.visitAll Runner.default.cleared.linters (Runner.visits documents)).2 = _
    rw [visited, Runner.visitAll_append, List.append_assoc]
    rfl
  · rw [reported]
    exact Option.length_toList_le
  · rw [reported, Ne, Option.toList_eq_nil_iff, checkAll_blocks_eq_none_iff own, Classical.not_not]
  · intro problem
    rw [reported, Option.toList_eq_singleton_iff, checkAll_blocks_eq_some_iff own]

/-- The third of three scenarios cites both earlier lines. A rule may have their name again, and it reports
the name that its outline shares with a scenario further down. -/
theorem visit_reports_first_repeated_under_feature_and_rule :
    let path : Path := ⟨"a.feature".toList⟩
    let document := Document.ofFeature path (some ⟨1, "F".toList,
      [⟨2, "S".toList, .scenario⟩, ⟨3, "S".toList, .scenario⟩, ⟨4, "S".toList, .scenario⟩],
      [⟨5, "R".toList, [⟨6, "A <x>".toList, .outline [⟨7, [], [⟨8, ["x".toList]⟩,
        ⟨9, ["1".toList]⟩]⟩]⟩, ⟨10, "A 1".toList, .scenario⟩, ⟨11, "S".toList, .scenario⟩]⟩]⟩)
    let visits (numbers : List Nat) := numbers.map fun number => (document, number)
    let problemsAt (numbers : List Nat) (number : Nat) := (Runner.visitEach document number
      (Runner.visitAll Runner.default.cleared.linters (visits numbers)).1).2
    let third : Problem := ⟨"UniqueScenarioNamesLinter".toList, ("Scenario name 'S' is not unique. \n" ++
      "    Original name is on line: 2 \n    Duplicate is on: 3, 4").toList, path, 4⟩
    let filled : Problem := ⟨"UniqueScenarioNamesLinter".toList, ("Scenario name created by " ++
      "Scenario Outline 'A 1' is not unique. \n    Original name is on line: 10 \n" ++
      "    Duplicate is on: 6").toList, path, 6⟩
    Runner.visits [document] = visits [0, 1, 2, 3] ++ (document, 4) ::
        visits [5, 6, 7, 8, 9, 10, 11, 12, 13] ∧
      Runner.visits [document] = visits [0, 1, 2, 3, 4] ++ (document, 5) ::
        visits [6, 7, 8, 9, 10, 11, 12, 13] ∧
      problemsAt [0, 1, 2, 3] 4 = [third] ∧ problemsAt [0, 1, 2, 3, 4] 5 = [filled] ∧
      IsFirstRepeated (blockMentions (visits [0, 1, 2, 3])) document (blocksAt document 4) third ∧
      IsFirstRepeated (blockMentions (visits [0, 1, 2, 3, 4])) document (blocksAt document 5) filled := by
  intro path document visits problemsAt third filled
  have atThird : Runner.visits [document] = visits [0, 1, 2, 3] ++ (document, 4) ::
      visits [5, 6, 7, 8, 9, 10, 11, 12, 13] := rfl
  have atRule : Runner.visits [document] = visits [0, 1, 2, 3, 4] ++ (document, 5) ::
      visits [6, 7, 8, 9, 10, 11, 12, 13] := rfl
  have thirdReported : problemsAt [0, 1, 2, 3] 4 = [third] := by decide +kernel
  have filledReported : problemsAt [0, 1, 2, 3, 4] 5 = [filled] := by decide +kernel
  have thirdVisit := visit_reports_first_repeated [document] _ _ document 4 atThird
  have ruleVisit := visit_reports_first_repeated [document] _ _ document 5 atRule
  exact ⟨atThird, atRule, thirdReported, filledReported,
    (thirdVisit.2.2.2 third).1 thirdReported, (ruleVisit.2.2.2 filled).1 filledReported⟩

end UniqueNames

end FeatureLint
