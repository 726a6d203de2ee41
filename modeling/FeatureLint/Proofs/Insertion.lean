import FeatureLint.Proofs.DocStrings
import FeatureLint.Proofs.Printing

/-!
This file puts a blank line, a comment or a tag into a source. Such a line changes no state of the
automaton, closes no doc string and grows into nothing. Main statement: wherever the line is put, the
parser gives the same document or the same error, and only the lines after it are counted one higher.
-/

namespace FeatureLint

/-- Blank lines, comments and tags have these contents. -/
def Text.IsNeutral (content : Text) : Prop :=
  content = [] ∨ startsWith content "#".toList = true ∨ startsWith content "@".toList = true

/-- These texts open and close doc strings. -/
def Text.fences : List Text :=
  ["\"\"\"".toList, "```".toList]

/-- A neutral text does not start with a fence. -/
theorem Text.IsNeutral.startsWith_eq_false {content fence : Text} (neutral : IsNeutral content)
    (isFence : fence ∈ fences) : startsWith content fence = false := by
  rw [fences, List.mem_pair] at isFence
  rcases neutral with rfl | comment | tag
  · rcases isFence with rfl | rfl <;> rfl
  · obtain ⟨rest, rfl⟩ := (startsWith_iff _ _).1 comment
    rcases isFence with rfl | rfl <;> rfl
  · obtain ⟨rest, rfl⟩ := (startsWith_iff _ _).1 tag
    rcases isFence with rfl | rfl <;> rfl

namespace Line

/-- A neutral line is blank and has no keyword, or it is a comment or a tag. -/
def IsNeutral (line : Line) : Prop :=
  (line.isBlank = true ∧ line.keyword? = none) ∨ line.keyword? = some .comment ∨
    line.keyword? = some .tag

/-- A line with a neutral content is neutral. -/
theorem isNeutral_of_content {source : Text} {line : Line} (member : line ∈ ofSource source)
    (neutral : Text.IsNeutral line.content) : line.IsNeutral := by
  have classified := (ofContent_of_mem_ofSource member).1
  rcases neutral with blank | comment | tag
  · have isBlank : line.isBlank = true := List.isEmpty_iff.2 blank
    exact Or.inl ⟨isBlank, keyword?_of_isBlank member isBlank⟩
  · obtain ⟨rest, content⟩ := (Text.startsWith_iff _ _).1 comment
    have listed : ("#".toList, Keyword.comment) ∈ Keyword.spellings := by decide
    right
    left
    rw [classified, content, ofContent, Keyword.read?_append listed]
  · obtain ⟨rest, content⟩ := (Text.startsWith_iff _ _).1 tag
    have listed : ("@".toList, Keyword.tag) ∈ Keyword.spellings := by decide
    right
    right
    rw [classified, content, ofContent, Keyword.read?_append listed]

/-- A neutral line is no heading. -/
theorem IsNeutral.isHeading_eq_false {line : Line} (neutral : line.IsNeutral) :
    line.isHeading = false := by
  rcases neutral with ⟨-, found⟩ | found | found <;>
    simp [isHeading, opensSection, found, Keyword.opensSection, Keyword.opensBlock]

theorem IsNeutral.keyword?_ne {line : Line} (neutral : line.IsNeutral) :
    line.keyword? ≠ some .row ∧ line.keyword? ≠ some .fence := by
  rcases neutral with ⟨-, found⟩ | found | found <;> simp [found]

/-- A line that is a fence starts with one of the fences. -/
theorem take_mem_fences {source : Text} {line : Line} (member : line ∈ ofSource source)
    (isFence : line.keyword? = some .fence) : line.content.take 3 ∈ Text.fences := by
  have classified := (ofContent_of_mem_ofSource member).1
  rw [classified, ofContent] at isFence
  split at isFence
  · next keyword rest read =>
      cases isFence
      obtain ⟨spelling, listed, content⟩ := Keyword.exists_spelling read
      have every : ∀ entry ∈ Keyword.spellings, entry.2 = .fence →
          entry.1 ∈ Text.fences ∧ entry.1.length = 3 := by
        decide
      obtain ⟨known, length⟩ := every _ listed rfl
      rw [content, List.take_left' length]
      exact known
  · cases isFence

/-- Only fences are open after the lines of a source. -/
theorem mem_fences_of_scan {source : Text} {lines : List Line}
    (members : ∀ line ∈ lines, line ∈ ofSource source) {open? : Option Text}
    (proper : ∀ fence ∈ open?, fence ∈ Text.fences) :
    ∀ fence ∈ scan open? lines, fence ∈ Text.fences := by
  induction lines generalizing open? with
  | nil => exact proper
  | cons line rest inductionHypothesis =>
      obtain ⟨member, others⟩ := List.forall_mem_cons.1 members
      apply inductionHypothesis others
      intro fence opened
      unfold fenceAfter at opened
      split at opened
      · split at opened
        · cases opened
        · exact proper fence opened
      · split at opened
        · next isFence =>
            cases opened
            exact take_mem_fences member isFence
        · cases opened

/-- A line that is no heading does not change whether examples are met. -/
theorem meetExamples_insert {line : Line} (other : line.isHeading = false) (first second : List Line) :
    meetExamples (first ++ line :: second) = meetExamples (first ++ second) := by
  induction first with
  | nil => rw [List.nil_append, List.nil_append, meetExamples_of_isHeading, if_neg (by simp [other])]
  | cons head rest inductionHypothesis =>
      rw [List.cons_append, List.cons_append, meetExamples_of_isHeading, meetExamples_of_isHeading,
        inductionHypothesis]

end Line

/-- A neutral line adds no branches. -/
theorem Above.growth_insert {line : Line} (neutral : line.IsNeutral) (above : Above) (next : Nat)
    (first second : List Line) :
    above.growth next (first ++ line :: second) = above.growth next (first ++ second) := by
  induction first generalizing above next with
  | nil => exact growth_of_other next second neutral.isHeading_eq_false (Or.inl neutral.keyword?_ne.1)
  | cons head rest inductionHypothesis =>
      have sameBranches : above.branches next head (rest ++ line :: second) =
          above.branches next head (rest ++ second) := by
        unfold branches
        rw [Line.meetExamples_insert neutral.isHeading_eq_false]
      rw [List.cons_append, List.cons_append, growth, growth, sameBranches, inductionHypothesis]

/-- A neutral line that closes no doc string grows into nothing. -/
theorem Above.growth_outside_insert {line : Line} (neutral : line.IsNeutral) {before : List Line}
    (unclosed : ∀ fence ∈ Line.scan none before, Text.startsWith line.content fence = false)
    (after : List Line) (above : Above) (next : Nat) :
    above.growth next (Line.outside none (before ++ line :: after)) =
      above.growth next (Line.outside none (before ++ after)) := by
  rw [Line.outside_append, Line.outside_append]
  cases inside : Line.scan none before with
  | none =>
      rw [Line.outside_of_not_fence after neutral.keyword?_ne.2]
      exact growth_insert neutral above next _ _
  | some fence =>
      rw [Line.outside, if_neg (by simp [unclosed fence inside])]

namespace Automaton

/-- A neutral line changes no state. -/
theorem step_of_isNeutral {line : Line} (neutral : line.IsNeutral) {state : State}
    (unclosed : ∀ fence ∈ state.fence?, Text.startsWith line.content fence = false) :
    step state line = .ok state := by
  cases state with
  | start => rcases neutral with ⟨blank, -⟩ | found | found <;> simp [step, stepStart, *]
  | feature | rule =>
      rcases neutral with ⟨-, found⟩ | found | found <;> simp [step, stepSection, stepHeading, found]
  | body isBackground =>
      rcases neutral with ⟨-, found⟩ | found | found <;> simp [step, stepBody, stepHeading, found]
  | examples width? =>
      rcases neutral with ⟨-, found⟩ | found | found <;> simp [step, stepExamples, stepHeading, found]
  | docString fence opening isBackground => rw [step, if_neg (by simp [unclosed fence rfl])]

/-- A neutral line outside doc strings does not change the run. -/
theorem run_insert {line : Line} (neutral : line.IsNeutral) {before : List Line}
    (unclosed : ∀ fence ∈ Line.scan none before, Text.startsWith line.content fence = false)
    (blankLines : ∀ line ∈ before, line.isBlank = true → line.keyword? = none) (after : List Line) :
    run .start (before ++ line :: after) = run .start (before ++ after) := by
  rw [run_append, run_append]
  cases reached : reach .start before with
  | error error => rfl
  | ok state =>
      have same : state.fence? = Line.scan none before := fence?_reach blankLines reached
      show run state (line :: after) = run state after
      rw [run, step_of_isNeutral neutral (same ▸ unclosed)]

end Automaton

namespace Document

/-- Parsing agrees on two sources that are relocated up to one neutral line. -/
theorem agree_parse_of_insertion {place : Nat → Nat} {source longer : Text}
    {before after longerBefore longerAfter : List Line} {line : Line}
    (split : Line.ofSource source = before ++ after)
    (longerSplit : Line.ofSource longer = longerBefore ++ line :: longerAfter)
    (neutral : Text.IsNeutral line.content)
    (relocatedBefore : List.Forall₂ (Line.IsRelocated place) before longerBefore)
    (relocatedAfter : List.Forall₂ (Line.IsRelocated place) after longerAfter) (path : Path) :
    Agree place (fun document moved => moved = document.relocate place) (parse path source)
      (parse path longer) := by
  have member : line ∈ Line.ofSource longer := by simp [longerSplit]
  have neutralLine := Line.isNeutral_of_content member neutral
  have unclosed : ∀ fence ∈ Line.scan none longerBefore,
      Text.startsWith line.content fence = false := by
    have members : ∀ other ∈ longerBefore, other ∈ Line.ofSource longer := by
      intro other inside
      exact longerSplit ▸ List.mem_append_left _ inside
    intro fence opened
    exact neutral.startsWith_eq_false (Line.mem_fences_of_scan members (by simp) fence opened)
  have relocated := List.rel_append relocatedBefore relocatedAfter
  apply agree_parse
  · rw [split, longerSplit,
      Automaton.run_insert neutralLine unclosed (keyword?_of_isBlank_of_before longerSplit)]
    exact Automaton.agree_run relocated (.same rfl)
  · rw [split, longerSplit, Above.growth_outside_insert neutralLine unclosed]
    exact Above.growth_relocated (Line.outside_relocated relocated none) _ _

/-- This is where a line goes when one more line is put in after the first `count` lines. -/
def placeAfterInsertion (count number : Nat) : Nat :=
  if count < number then number + 1 else number

/-- A blank line, a comment or a tag changes nothing but the numbers of the lines after it. Wherever it
is put, a document has the same nodes, and those at or after the new line stand one line lower. An error
has the same cause, and it is one line lower when it was at or after the new line. -/
theorem insertion_only_renumbers {source longer line : Text} {before after : List Text}
    (lines : Text.rawLines source = before ++ after)
    (longerLines : Text.rawLines longer = before ++ line :: after)
    (neutral : Text.IsNeutral (Text.trim line)) (path : Path) :
    (∀ document, parse path source = .ok document →
      parse path longer = .ok (document.relocate (placeAfterInsertion before.length))) ∧
    ∀ error, parse path source = .error error → ∃ span, parse path longer =
      .error ⟨error.cause, placeAfterInsertion before.length error.line, span⟩ := by
  have contents := Line.map_content_ofSource source
  have longerContents := Line.map_content_ofSource longer
  rw [lines, List.map_append] at contents
  rw [longerLines, List.map_append, List.map_cons] at longerContents
  obtain ⟨front, back, split, frontContents, backContents⟩ := List.map_eq_append_iff.1 contents
  obtain ⟨longerFront, _, longerSplit, longerFrontContents, inner⟩ :=
    List.map_eq_append_iff.1 longerContents
  obtain ⟨inserted, longerBack, rfl, insertedContent, longerBackContents⟩ :=
    List.map_eq_cons_iff.1 inner
  have lengthFront : front.length = before.length := by
    simpa using congrArg List.length frontContents
  have lengthLongerFront : longerFront.length = before.length := by
    simpa using congrArg List.length longerFrontContents
  have relocatedFront : List.Forall₂ (Line.IsRelocated (placeAfterInsertion before.length)) front
      longerFront := by
    apply @Line.forall₂_isRelocated _ source longer [] front _ [] longerFront _ split longerSplit
    · rw [frontContents, longerFrontContents]
    · intro index inside
      rw [lengthFront] at inside
      rw [placeAfterInsertion, List.length_nil, if_neg (by omega)]
  have relocatedBack : List.Forall₂ (Line.IsRelocated (placeAfterInsertion before.length)) back
      longerBack := by
    apply @Line.forall₂_isRelocated _ source longer front back [] (longerFront ++ [inserted])
      longerBack []
    · rw [split, List.append_nil]
    · rw [longerSplit, List.append_nil, List.append_assoc, List.singleton_append]
    · rw [backContents, longerBackContents]
    · intro index _
      rw [placeAfterInsertion, lengthFront, List.length_append, lengthLongerFront,
        List.length_singleton, if_pos (by omega)]
      omega
  rw [← insertedContent] at neutral
  rcases (agree_iff ..).1 (agree_parse_of_insertion split longerSplit neutral relocatedFront
    relocatedBack path) with
    ⟨document, _, rfl, parsed, moved⟩ | ⟨error, movedError, cause, place, failed, moved⟩
  · rw [parsed, moved]
    constructor
    · rintro _ ⟨⟩
      rfl
    · rintro _ ⟨⟩
  · rw [failed, moved]
    constructor
    · rintro _ ⟨⟩
    · rintro _ ⟨⟩
      exact ⟨movedError.span, by rw [← cause, ← place]⟩

/-- A comment is put between the rows of a table whose last line has no newline, and an empty line is put
into a doc string above a row that is too long for its table. -/
theorem insertion_only_renumbers_in_table :
    let path : Path := ⟨"a.feature".toList⟩
    let source := "Feature: F\nScenario: S\nExamples:\n| a |\n| b |".toList
    let longer := "Feature: F\nScenario: S\nExamples:\n| a |\n\t# | x | y |\n| b |".toList
    let document := ofFeature path (some ⟨1, "F".toList, [⟨2, "S".toList,
      .outline [⟨3, [], [⟨4, ["a".toList]⟩, ⟨5, ["b".toList]⟩]⟩]⟩], []⟩)
    let bad := "Feature: F\nScenario: S\n```\n```\nExamples:\n| a |\n| b | c |\n".toList
    let worse := "Feature: F\nScenario: S\n```\n\n```\nExamples:\n| a |\n| b | c |\n".toList
    let comment := "\t# | x | y |".toList
    let before := Text.rawLines "Feature: F\nScenario: S\nExamples:\n| a |\n".toList
    Text.rawLines source = before ++ ["| b |".toList] ∧
      Text.rawLines longer = before ++ comment :: ["| b |".toList] ∧
      parse path source = .ok document ∧
      parse path longer = .ok (document.relocate (placeAfterInsertion 4)) ∧
      (document.relocate (placeAfterInsertion 4)).branches.map (fun branch => branch.node.line) =
        [1, 2, 3, 4, 4, 6, 6] ∧
      parse path bad = .error ⟨.misalignedRow 1 2, 7, ⟨47, 56⟩⟩ ∧
      ∃ span, parse path worse = .error ⟨.misalignedRow 1 2, 8, span⟩ := by
  intro path source longer document bad worse comment before
  have parsed : parse path source = .ok document := by with_unfolding_all rfl
  have failed : parse path bad = .error ⟨.misalignedRow 1 2, 7, ⟨47, 56⟩⟩ := by with_unfolding_all rfl
  have lines : Text.rawLines source = before ++ ["| b |".toList] := by decide +kernel
  have longerLines : Text.rawLines longer = before ++ comment :: ["| b |".toList] := by decide +kernel
  have moved := (insertion_only_renumbers lines longerLines (Or.inr (Or.inl rfl)) path).1
  have movedError := (@insertion_only_renumbers bad worse [] ((Text.rawLines bad).take 3)
    ((Text.rawLines bad).drop 3) (by decide +kernel) (by decide +kernel) (Or.inl rfl) path).2
  exact ⟨lines, longerLines, parsed, moved document parsed, by decide, failed, movedError _ failed⟩

end Document

end FeatureLint
