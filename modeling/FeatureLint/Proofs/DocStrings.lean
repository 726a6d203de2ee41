import FeatureLint.Proofs.Relocation

/-!
This file says what the lines inside a doc string do. A scan of the lines tells which doc string is
open after them, and the automaton and the lines outside doc strings follow the same scan. Main
statement: two sources that differ in the lines inside a doc string, but not in the number of these
lines, parse to the same document or fail with the same error up to its bytes.
-/

namespace FeatureLint

namespace Line

/-- This is the fence of the doc string that is open after a line. A fence opens a doc string, and the
next line that starts with the same three characters closes it. -/
def fenceAfter (open? : Option Text) (line : Line) : Option Text :=
  match open? with
  | some fence => if Text.startsWith line.content fence then none else some fence
  | none => if line.keyword? = some .fence then some (line.content.take 3) else none

/-- This is the fence of the doc string that is open after all lines. -/
def scan (open? : Option Text) (lines : List Line) : Option Text :=
  lines.foldl fenceAfter open?

theorem scan_cons (open? : Option Text) (line : Line) (rest : List Line) :
    scan open? (line :: rest) = scan (line.fenceAfter open?) rest := rfl

/-- A line is outside doc strings when none is open before it and it does not open one. -/
theorem outside_cons (open? : Option Text) (line : Line) (rest : List Line) :
    outside open? (line :: rest) =
      (if open? = none ∧ line.keyword? ≠ some .fence then [line] else []) ++
        outside (line.fenceAfter open?) rest := by
  cases open? with
  | some fence =>
      rw [if_neg (by simp)]
      rfl
  | none =>
      rw [outside, fenceAfter]
      by_cases isFence : line.keyword? = some .fence <;> simp [isFence]

/-- What is outside doc strings is found in two pieces of the lines, one after the other. -/
theorem outside_append (open? : Option Text) (first second : List Line) :
    outside open? (first ++ second) = outside open? first ++ outside (scan open? first) second := by
  induction first generalizing open? with
  | nil => cases open? <;> rfl
  | cons line rest inductionHypothesis =>
      rw [List.cons_append, outside_cons, outside_cons, inductionHypothesis, scan_cons,
        List.append_assoc]

/-- A line opens or closes a doc string wherever it stands. -/
theorem IsRelocated.fenceAfter_eq {place : Nat → Nat} {line moved : Line}
    (relocated : line.IsRelocated place moved) (open? : Option Text) :
    moved.fenceAfter open? = line.fenceAfter open? := by
  unfold fenceAfter
  rw [relocated.content, relocated.keyword]

/-- Doc strings are open after the same lines wherever they stand. -/
theorem scan_relocated {place : Nat → Nat} {lines moved : List Line}
    (relocated : List.Forall₂ (IsRelocated place) lines moved) (open? : Option Text) :
    scan open? moved = scan open? lines := by
  induction relocated generalizing open? with
  | nil => rfl
  | cons first _ inductionHypothesis =>
      rw [scan_cons, scan_cons, inductionHypothesis, first.fenceAfter_eq]

/-- These lines end with a doc string that the last one of them closes. -/
structure HoldsDocString (before : List Line) (opening : Line) (body : List Line) (closing : Line) :
    Prop where
  outside : scan none before = none
  isFence : opening.keyword? = some .fence
  unclosed : ∀ line ∈ body, Text.startsWith line.content (opening.content.take 3) = false
  closes : Text.startsWith closing.content (opening.content.take 3) = true

/-- A doc string is skipped up to the first line that closes it. -/
theorem skipDocString?_append {fence : Text} {body : List Line} {closing : Line}
    (unclosed : ∀ line ∈ body, Text.startsWith line.content fence = false)
    (closes : Text.startsWith closing.content fence = true) (after : List Line) :
    Block.skipDocString? fence (body ++ closing :: after) = some after := by
  induction body with
  | nil => rw [List.nil_append, Block.skipDocString?, if_pos closes]
  | cons line rest inductionHypothesis =>
      obtain ⟨continues, later⟩ := List.forall_mem_cons.1 unclosed
      rw [List.cons_append, Block.skipDocString?, if_neg (by simp [continues])]
      exact inductionHypothesis later

/-- A doc string leaves no trace outside. -/
theorem HoldsDocString.outside_eq {before body : List Line} {opening closing : Line}
    (holds : HoldsDocString before opening body closing) (after : List Line) :
    Line.outside none (before ++ opening :: (body ++ closing :: after)) =
      Line.outside none before ++ Line.outside none after := by
  rw [outside_append, holds.outside, Line.outside, if_pos holds.isFence,
    outside_of_skipDocString? (skipDocString?_append holds.unclosed holds.closes after)]

end Line

namespace Automaton

/-- Two pieces of the lines are gone through one after the other. -/
theorem reach_append (state : State) (first second : List Line) :
    reach state (first ++ second) = (reach state first).bind fun next => reach next second := by
  induction first generalizing state with
  | nil => rfl
  | cons line rest inductionHypothesis =>
      rw [List.cons_append, reach, reach]
      cases step state line with
      | error error => rfl
      | ok next => exact inductionHypothesis next

theorem run_append (state : State) (first second : List Line) :
    run state (first ++ second) = (reach state first).bind fun next => run next second := by
  rw [run_eq_reach, reach_append]
  cases reach state first with
  | error error => rfl
  | ok next => exact (run_eq_reach next second).symm

/-- A fence opens a doc string or is an error. -/
theorem step_of_fence {state : State} (outside : state.fence? = none) {line : Line}
    (isFence : line.keyword? = some .fence) (notBlank : line.isBlank = false) :
    (∃ error, step state line = .error error) ∨
      ∃ isBackground, step state line = .ok (.docString (line.content.take 3) line isBackground) := by
  cases state with
  | start =>
      left
      simp [step, stepStart, notBlank, isFence]
  | feature | rule =>
      left
      simp [step, stepSection, isFence]
  | body isBackground =>
      right
      simp [step, stepBody, isFence]
  | examples width? =>
      left
      simp [step, stepExamples, isFence]
  | docString fence opening isBackground => cases outside

/-- The automaton is in a doc string exactly when the scan is. -/
theorem fence?_step {state next : State} {line : Line}
    (blankLine : line.isBlank = true → line.keyword? = none) (moved : step state line = .ok next) :
    next.fence? = line.fenceAfter state.fence? := by
  cases inside : state.fence? with
  | some fence =>
      cases state <;> cases inside
      rw [step] at moved
      rw [Line.fenceAfter]
      split at moved
      · next closes =>
          cases moved
          rw [if_pos closes]
          rfl
      · next continues =>
          cases moved
          rw [if_neg continues]
          rfl
  | none =>
      rw [Line.fenceAfter]
      by_cases isFence : line.keyword? = some .fence
      · have notBlank := Line.isBlank_eq_false_of_found blankLine isFence
        rcases step_of_fence inside isFence notBlank with ⟨error, stopped⟩ | ⟨isBackground, entered⟩
        · rw [stopped] at moved
          cases moved
        · rw [entered] at moved
          cases moved
          rw [if_pos isFence]
          rfl
      · rw [if_neg isFence]
        cases next with
        | docString fence opening isBackground =>
            rcases step_eq_docString moved with ⟨rfl, -⟩ | ⟨-, -, opened, -⟩
            · cases inside
            · exact absurd opened isFence
        | _ => rfl

/-- After some lines the automaton is in a doc string exactly when one is open. -/
theorem fence?_reach {state last : State} {lines : List Line}
    (blankLines : ∀ line ∈ lines, line.isBlank = true → line.keyword? = none)
    (reached : reach state lines = .ok last) : last.fence? = Line.scan state.fence? lines := by
  induction lines generalizing state with
  | nil =>
      cases reached
      rfl
  | cons line rest inductionHypothesis =>
      obtain ⟨blankLine, blankRest⟩ := List.forall_mem_cons.1 blankLines
      obtain ⟨next, moved, later⟩ := exists_step_of_reach reached
      rw [inductionHypothesis blankRest later, fence?_step blankLine moved, Line.scan_cons]

/-- The lines inside a doc string do not matter to the automaton. -/
theorem run_docString_body {before body : List Line} {opening closing : Line}
    (holds : Line.HoldsDocString before opening body closing) (notBlank : opening.isBlank = false)
    (blankLines : ∀ line ∈ before, line.isBlank = true → line.keyword? = none) (after : List Line) :
    run .start (before ++ opening :: (body ++ closing :: after)) =
      run .start (before ++ opening :: closing :: after) := by
  rw [run_append, run_append]
  cases reached : reach .start before with
  | error error => rfl
  | ok state =>
      have outside : state.fence? = none := (fence?_reach blankLines reached).trans holds.outside
      have skipped := Line.skipDocString?_append holds.unclosed holds.closes after
      have skippedAtOnce := Line.skipDocString?_append (List.forall_mem_nil _) holds.closes after
      show run state (opening :: (body ++ closing :: after)) = run state (opening :: closing :: after)
      rw [run, run]
      rcases step_of_fence outside holds.isFence notBlank with
        ⟨error, stopped⟩ | ⟨isBackground, entered⟩
      · rw [stopped]
      · rw [entered]
        dsimp only
        rw [run_docString, run_docString, skipped]
        rw [List.nil_append] at skippedAtOnce
        rw [skippedAtOnce]

end Automaton

namespace Document

/-- Blank lines of a source have no keyword. -/
theorem keyword?_of_isBlank_of_before {source : Text} {before after : List Line}
    (split : Line.ofSource source = before ++ after) :
    ∀ line ∈ before, line.isBlank = true → line.keyword? = none := by
  intro line inside
  exact Line.keyword?_of_isBlank (split ▸ List.mem_append_left _ inside)

/-- Parsing agrees on two sources that are relocated up to the lines inside a doc string. -/
theorem agree_parse_of_docStrings {place : Nat → Nat} {source other : Text}
    {before body after otherBefore otherBody otherAfter : List Line}
    {opening closing otherOpening otherClosing : Line}
    (split : Line.ofSource source = before ++ opening :: (body ++ closing :: after))
    (otherSplit : Line.ofSource other =
      otherBefore ++ otherOpening :: (otherBody ++ otherClosing :: otherAfter))
    (holds : Line.HoldsDocString before opening body closing)
    (otherHolds : Line.HoldsDocString otherBefore otherOpening otherBody otherClosing)
    (relocatedBefore : List.Forall₂ (Line.IsRelocated place) before otherBefore)
    (relocatedOpening : opening.IsRelocated place otherOpening)
    (relocatedAfter : List.Forall₂ (Line.IsRelocated place) (closing :: after)
      (otherClosing :: otherAfter)) (path : Path) :
    Agree place (fun document moved => moved = document.relocate place) (parse path source)
      (parse path other) := by
  have member : opening ∈ Line.ofSource source := by simp [split]
  have otherMember : otherOpening ∈ Line.ofSource other := by simp [otherSplit]
  have notBlank := Line.isBlank_eq_false_of_keyword? member holds.isFence
  have otherNotBlank := Line.isBlank_eq_false_of_keyword? otherMember otherHolds.isFence
  apply agree_parse
  · rw [split, otherSplit,
      Automaton.run_docString_body holds notBlank (keyword?_of_isBlank_of_before split),
      Automaton.run_docString_body otherHolds otherNotBlank (keyword?_of_isBlank_of_before otherSplit)]
    apply Automaton.agree_run _ (.same rfl)
    exact List.rel_append relocatedBefore (.cons relocatedOpening relocatedAfter)
  · rw [split, otherSplit, holds.outside_eq, otherHolds.outside_eq]
    apply Above.growth_relocated
    apply List.rel_append (Line.outside_relocated relocatedBefore none)
    exact Line.outside_relocated (List.forall₂_cons.1 relocatedAfter).2 none

/-- Doc strings are opaque. Two sources whose lines have the same contents but inside one doc string,
where both have the same number of lines and no line that closes it, parse to the same document, or
they fail with errors that differ at most in their bytes. -/
theorem docString_bodies_are_opaque {source other : Text} {before body after : List Line}
    {opening closing : Line} {otherBody : List Text}
    (split : Line.ofSource source = before ++ opening :: (body ++ closing :: after))
    (otherSplit : (Line.ofSource other).map Line.content =
      before.map Line.content ++
        opening.content :: (otherBody ++ closing.content :: after.map Line.content))
    (holds : Line.HoldsDocString before opening body closing)
    (otherUnclosed : ∀ content ∈ otherBody,
      Text.startsWith content (opening.content.take 3) = false)
    (sameLength : otherBody.length = body.length) (path : Path) :
    (∃ document, parse path source = .ok document ∧ parse path other = .ok document) ∨
      ∃ error span, parse path source = .error error ∧
        parse path other = .error { error with span := span } := by
  obtain ⟨otherBefore, _, otherLines, sameBefore, inner⟩ := List.map_eq_append_iff.1 otherSplit
  obtain ⟨otherOpening, _, rfl, sameOpening, inner⟩ := List.map_eq_cons_iff.1 inner
  obtain ⟨otherInside, _, rfl, sameBody, inner⟩ := List.map_eq_append_iff.1 inner
  obtain ⟨otherClosing, otherAfter, rfl, sameClosing, sameAfter⟩ := List.map_eq_cons_iff.1 inner
  have lengthBefore : otherBefore.length = before.length := by
    simpa using congrArg List.length sameBefore
  have lengthBody : otherInside.length = body.length := by
    rw [← sameLength, ← sameBody, List.length_map]
  -- All numbers stay because the two bodies are equally long.
  have relocatedBefore : List.Forall₂ (Line.IsRelocated id) before otherBefore := by
    apply @Line.forall₂_isRelocated id source other [] before _ [] otherBefore _ split otherLines
    · exact sameBefore
    · intro index _
      rfl
  have relocatedOpening : List.Forall₂ (Line.IsRelocated id) [opening] [otherOpening] := by
    apply Line.forall₂_isRelocated split otherLines
    · rw [List.map_singleton, List.map_singleton, sameOpening]
    · intro index _
      rw [lengthBefore]
      rfl
  have relocatedAfter : List.Forall₂ (Line.IsRelocated id) (closing :: after)
      (otherClosing :: otherAfter) := by
    apply @Line.forall₂_isRelocated id source other (before ++ opening :: body) (closing :: after) []
      (otherBefore ++ otherOpening :: otherInside) (otherClosing :: otherAfter) []
    · simp [split]
    · simp [otherLines]
    · simp [sameClosing, sameAfter]
    · intro index _
      simp [lengthBefore, lengthBody]
  have opened := (List.forall₂_cons.1 relocatedOpening).1
  have otherHolds : Line.HoldsDocString otherBefore otherOpening otherInside otherClosing := by
    rw [← sameOpening, ← sameBody, List.forall_mem_map] at otherUnclosed
    refine ⟨?_, ?_, otherUnclosed, ?_⟩
    · rw [Line.scan_relocated relocatedBefore, holds.outside]
    · rw [opened.keyword, holds.isFence]
    · rw [sameOpening, sameClosing, holds.closes]
  rcases (agree_iff ..).1 (agree_parse_of_docStrings split otherLines holds otherHolds relocatedBefore
    opened relocatedAfter path) with
    ⟨document, _, rfl, parsed, otherParsed⟩ | ⟨error, otherError, cause, line, failed, otherFailed⟩
  · rw [relocate_id] at otherParsed
    exact Or.inl ⟨document, parsed, otherParsed⟩
  · refine Or.inr ⟨error, otherError.span, failed, ?_⟩
    rw [otherFailed, ← cause, show error.line = otherError.line from line.symm]

/-- A second feature, examples and the other kind of fence stand in the two doc strings, and the examples
after them still make an outline of the scenario. -/
theorem docString_bodies_are_opaque_to_headings :
    let path : Path := ⟨"a.feature".toList⟩
    let front := "Feature: F\nScenario: S\n".toList
    let source := front ++ "\"\"\"\nx\n```\n\"\"\"\nExamples:\n| a |\n".toList
    let other := front ++ "\"\"\"\nFeature: G\nExamples:\n\"\"\"\nExamples:\n| a |\n".toList
    let before := Line.ofSource front
    let opening := Line.read 3 23 "\"\"\"".toList
    let body := [Line.read 4 27 "x".toList, Line.read 5 29 "```".toList]
    let closing := Line.read 6 33 "\"\"\"".toList
    let after := [Line.read 7 37 "Examples:".toList, Line.read 8 47 "| a |".toList]
    Line.ofSource source = before ++ opening :: (body ++ closing :: after) ∧
      Line.HoldsDocString before opening body closing ∧
      ∃ document, parse path source = .ok document ∧ parse path other = .ok document ∧
        document.is 2 .outline = true ∧ document.size = 6 := by
  intro path front source other before opening body closing after
  have split : Line.ofSource source = before ++ opening :: (body ++ closing :: after) := by
    decide +kernel
  have holds : Line.HoldsDocString before opening body closing :=
    ⟨by decide +kernel, by decide, by decide, by decide⟩
  have parsed : parse path source = .ok (ofFeature path (some ⟨1, "F".toList,
      [⟨2, "S".toList, .outline [⟨7, [], [⟨8, ["a".toList]⟩]⟩]⟩], []⟩)) := by
    with_unfolding_all rfl
  have otherSplit : (Line.ofSource other).map Line.content = before.map Line.content ++
      opening.content :: (["Feature: G".toList, "Examples:".toList] ++
        closing.content :: after.map Line.content) := by
    decide +kernel
  rcases docString_bodies_are_opaque split otherSplit holds (by decide) rfl path with
    ⟨document, same, otherParsed⟩ | ⟨error, span, failed, -⟩
  · rw [parsed] at same
    cases same
    exact ⟨split, holds, _, parsed, otherParsed, by decide, by decide⟩
  · rw [parsed] at failed
    cases failed

end Document

end FeatureLint
