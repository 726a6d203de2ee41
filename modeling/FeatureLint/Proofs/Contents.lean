import FeatureLint.Proofs.Relocation

/-!
This file compares sources whose lines have the same contents. They may differ in the blanks around their
lines, in the way their lines end and in the newline behind the last one. Main statement: such sources
parse to the same document, or they fail with the same error, whose bytes cover the same text in both.
-/

namespace FeatureLint

namespace Line

/-- In sources with the same contents, lines with the same number have the same content. -/
theorem content_eq_of_number {source other : Text}
    (contents : (ofSource source).map content = (ofSource other).map content) {line twin : Line}
    (member : line ∈ ofSource source) (twinMember : twin ∈ ofSource other)
    (sameNumber : twin.number = line.number) : twin.content = line.content := by
  obtain ⟨index, found⟩ := List.mem_iff_getElem?.1 member
  obtain ⟨twinIndex, twinFound⟩ := List.mem_iff_getElem?.1 twinMember
  have sameIndex : twinIndex = index := by
    have number := number_of_getElem? found
    have twinNumber := number_of_getElem? twinFound
    omega
  have here := congrArg (fun texts => texts[index]?) contents
  simp only [List.getElem?_map] at here
  rw [found, ← sameIndex, twinFound] at here
  exact (Option.some.inj here).symm

theorem forall₂_isRelocated_id {source other : Text}
    (contents : (ofSource source).map content = (ofSource other).map content) :
    List.Forall₂ (IsRelocated id) (ofSource source) (ofSource other) := by
  apply @forall₂_isRelocated id source other [] (ofSource source) [] [] (ofSource other) []
  · rw [List.append_nil, List.nil_append]
  · rw [List.append_nil, List.nil_append]
  · exact contents.symm
  · intro index _
    rfl

end Line

/-- The automaton stops on a line, or at the end of a doc string that a line opened. -/
theorem Automaton.exists_line_of_run {lines : List Line} {error : ParseError}
    (failed : run .start lines = .error error) :
    ∃ line ∈ lines, error.line = line.number ∧ error.span = line.span := by
  rcases exists_stop failed with
    ⟨before, line, after, state, rfl, -, stopped⟩ | ⟨state, reached, stopped⟩
  · obtain ⟨cause, -, rfl⟩ := (stopsOn_of_step stopped).onLine
    exact ⟨line, List.mem_append_right _ List.mem_cons_self, rfl, rfl⟩
  · cases state <;> cases stopped
    rcases exists_opening reached with ⟨impossible, -⟩ | ⟨before, after, rfl, -, -, -⟩
    · cases impossible
    · exact ⟨_, List.mem_append_right _ List.mem_cons_self, rfl, rfl⟩

namespace Document

/-- The bytes of an error cover the content of its line. -/
theorem exists_line_of_parse_eq_error {path : Path} {source : Text} {error : ParseError}
    (failed : parse path source = .error error) :
    ∃ line ∈ Line.ofSource source, error.line = line.number ∧
      Text.slice? source error.span = some line.content := by
  rw [parse_eq_error_iff] at failed
  obtain ⟨line, member, number, span⟩ := Automaton.exists_line_of_run failed
  rw [span]
  exact ⟨line, member, number, Line.slice?_of_mem_ofSource member⟩

theorem agree_parse_of_contents {source other : Text}
    (contents : (Line.ofSource source).map Line.content = (Line.ofSource other).map Line.content)
    (path : Path) : Agree id Eq (parse path source) (parse path other) := by
  have relocated := Line.forall₂_isRelocated_id contents
  have runs : Agree id Eq (Automaton.run .start (Line.ofSource source))
      (Automaton.run .start (Line.ofSource other)) :=
    Automaton.agree_run relocated (.same rfl)
  have grown := Above.growth_relocated (Line.outside_relocated relocated none) Above.root 1
  rcases (agree_iff ..).1 (agree_parse runs grown path) with
    ⟨document, _, rfl, parsed, otherParsed⟩ | ⟨error, otherError, cause, line, failed, otherFailed⟩
  · rw [parsed, otherParsed, relocate_id]
    exact .ok rfl
  · rw [failed, otherFailed]
    exact .error cause line

/-- Parsing depends on nothing but the contents of the lines. Two sources with the same contents parse to
the same document, or they fail with the same cause on the same line, and the bytes of each error cover
the content of that line in its own source. -/
theorem parse_depends_on_contents {source other : Text}
    (contents : (Line.ofSource source).map Line.content = (Line.ofSource other).map Line.content)
    (path : Path) :
    (∃ document, parse path source = .ok document ∧ parse path other = .ok document) ∨
      ∃ error span, ∃ line ∈ Line.ofSource source,
        parse path source = .error error ∧ parse path other = .error { error with span := span } ∧
        line.number = error.line ∧ Text.slice? source error.span = some line.content ∧
        Text.slice? other span = some line.content := by
  rcases (agree_iff ..).1 (agree_parse_of_contents contents path) with
    ⟨document, _, rfl, parsed, otherParsed⟩ | ⟨error, otherError, cause, number, failed, otherFailed⟩
  · exact Or.inl ⟨document, parsed, otherParsed⟩
  · obtain ⟨line, member, lineNumber, covered⟩ := exists_line_of_parse_eq_error failed
    obtain ⟨twin, twinMember, twinNumber, twinCovered⟩ := exists_line_of_parse_eq_error otherFailed
    have sameNumber : twin.number = line.number := by
      rw [← twinNumber, ← lineNumber, number]
      rfl
    have sameError : otherError = { error with span := otherError.span } := by
      rw [← cause, show error.line = otherError.line from number.symm]
    rw [Line.content_eq_of_number contents member twinMember sameNumber] at twinCovered
    rw [sameError] at otherFailed
    exact Or.inr ⟨error, otherError.span, line, member, failed, otherFailed, lineNumber.symm, covered,
      twinCovered⟩

/-- The second source of each pair has other line ends, blanks that take more than one byte around its
lines, and no newline behind the last one. -/
theorem parse_depends_on_contents_with_other_line_ends :
    let path : Path := ⟨"a.feature".toList⟩
    let source := "Feature: F\nScenario: S\n\n```\n x\n```\nExamples:\n| é |\n".toList
    let other := "\u3000Feature: F\u2003\r\nScenario: S\r\n\t\r\n  ```\r\nx\n```\nExamples:\r\n| é |".toList
    let document := ofFeature path (some ⟨1, "F".toList, [⟨2, "S".toList,
      .outline [⟨7, [], [⟨8, ["é".toList]⟩]⟩]⟩], []⟩)
    let row := "| b | c |\n".toList
    let otherRow := "\u3000| b | c |\r\n".toList
    let error : ParseError := ⟨.misalignedRow 1 2, 9, ⟨52, 61⟩⟩
    (Line.ofSource source).map Line.content = (Line.ofSource other).map Line.content ∧
      parse path source = .ok document ∧ parse path other = .ok document ∧
      parse path (source ++ row) = .error error ∧
      ∃ span, parse path (other ++ '\n' :: otherRow) = .error { error with span := span } ∧
        Text.slice? (other ++ '\n' :: otherRow) span = some "| b | c |".toList := by
  intro path source other document row otherRow error
  have contents : (Line.ofSource source).map Line.content = (Line.ofSource other).map Line.content := by
    decide +kernel
  have parsed : parse path source = .ok document := by with_unfolding_all rfl
  have failed : parse path (source ++ row) = .error error := by
    rw [parse_eq_error_iff]
    decide +kernel
  have longer : (Line.ofSource (source ++ row)).map Line.content =
      (Line.ofSource (other ++ '\n' :: otherRow)).map Line.content := by
    decide +kernel
  have otherParsed : parse path other = .ok document := by
    rcases parse_depends_on_contents contents path with ⟨_, same, also⟩ | ⟨_, _, _, _, refused, -⟩
    · rw [parsed] at same
      cases same
      exact also
    · rw [parsed] at refused
      cases refused
  rcases parse_depends_on_contents longer path with
    ⟨_, accepted, -⟩ | ⟨_, span, line, _, refused, otherRefused, -, covered, otherCovered⟩
  · rw [failed] at accepted
    cases accepted
  · rw [failed] at refused
    cases refused
    have content : Text.slice? (source ++ row) error.span = some "| b | c |".toList := by decide
    rw [content] at covered
    rw [← covered] at otherCovered
    exact ⟨contents, parsed, otherParsed, failed, span, otherRefused, otherCovered⟩

end Document

end FeatureLint
