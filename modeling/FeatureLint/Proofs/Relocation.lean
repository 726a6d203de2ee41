import FeatureLint.Proofs.FirstError
import FeatureLint.Proofs.Placement
import Mathlib.Data.List.Forall2
import Mathlib.Tactic.MkIffOfInductiveProp

/-!
This file compares sources whose lines say the same at other places. Neither the automaton nor the
branches that grow from the lines look at the place of a line, they only report it. Main statement:
when the automaton agrees on two sources and their branches agree, the parser gives the same document
with its lines moved, or the same error on the line to which its line was moved.
-/

namespace FeatureLint

namespace Text

/-- These are the lines of a text without the newlines that end them. The last line may have none. -/
def rawLines : Text → List Text
  | [] => []
  | character :: rest =>
      if character = '\n' then [] :: rawLines rest
      else
        match rawLines rest with
        | [] => [[character]]
        | line :: lines => (character :: line) :: lines

/-- The first line of a text is its first raw line, perhaps with a newline behind it. -/
theorem exists_rawLines_cons {text : Text} (present : text ≠ []) :
    ∃ line back, rawLines text = line :: rawLines (afterFirstLine text) ∧
      firstLine text = line ++ back ∧ ∀ character ∈ back, isBlank character = true := by
  induction text with
  | nil => exact absurd rfl present
  | cons character rest inductionHypothesis =>
      by_cases newline : character = '\n'
      · refine ⟨[], ['\n'], by simp [rawLines, afterFirstLine, newline], by simp [firstLine, newline], ?_⟩
        exact List.forall_mem_singleton.2 isBlank_newline
      · by_cases last : rest = []
        · exact ⟨[character], [], by simp [rawLines, afterFirstLine, newline, last],
            by simp [firstLine, newline, last], List.forall_mem_nil _⟩
        · obtain ⟨line, back, lines, split, blank⟩ := inductionHypothesis last
          exact ⟨character :: line, back, by simp [rawLines, afterFirstLine, newline, lines],
            by simp [firstLine, newline, split], blank⟩

end Text

/-- The contents of lines do not depend on where the reader stands. -/
theorem LineReader.map_content_lines (text : Text) (offset number : Nat) :
    (lines ⟨text, offset, number⟩).map Line.content = (Text.rawLines text).map Text.trim := by
  induction text using Text.line_induction generalizing offset number with
  | nil => rw [lines_of_nil, Text.rawLines, List.map_nil, List.map_nil]
  | line text present inductionHypothesis =>
      obtain ⟨line, back, raw, split, blank⟩ := Text.exists_rawLines_cons present
      have trimmed := Text.trim_append_of_blank (List.forall_mem_nil _) blank line
      rw [List.nil_append] at trimmed
      rw [lines_of_ne_nil present, raw, List.map_cons, List.map_cons, inductionHypothesis,
        Line.read_eq_ofContent, Line.ofContent_content, split, trimmed]

/-- The lines of a source are its raw lines, and only what trimming leaves of them is kept. -/
theorem Line.map_content_ofSource (source : Text) :
    (ofSource source).map content = (Text.rawLines source).map Text.trim :=
  LineReader.map_content_lines source 0 0

/-- Two outcomes agree when both are results that correspond, or both are errors with the same cause and
the second one is on the line to which the line of the first one was moved. -/
@[mk_iff]
inductive Agree {First Second : Type} (place : Nat → Nat) (corresponds : First → Second → Prop) :
    Except ParseError First → Except ParseError Second → Prop where
  | ok {first : First} {second : Second} : corresponds first second →
      Agree place corresponds (.ok first) (.ok second)
  | error {first second : ParseError} : second.cause = first.cause → second.line = place first.line →
      Agree place corresponds (.error first) (.error second)

/-- A line is relocated when only its place changes. -/
structure Line.IsRelocated (place : Nat → Nat) (line moved : Line) : Prop where
  number : moved.number = place line.number
  keyword : moved.keyword? = line.keyword?
  content : moved.content = line.content
  text : moved.text = line.text

namespace Line

/-- A line that was classified by its content is relocated when its content stays. -/
theorem IsRelocated.of_content {place : Nat → Nat} {source other : Text} {line moved : Line}
    (member : line ∈ ofSource source) (movedMember : moved ∈ ofSource other)
    (number : moved.number = place line.number) (content : moved.content = line.content) :
    line.IsRelocated place moved := by
  have classified := (ofContent_of_mem_ofSource member).1
  have movedClassified := (ofContent_of_mem_ofSource movedMember).1
  rw [content] at movedClassified
  have same : moved.keyword? = line.keyword? ∧ moved.text = line.text := by
    rw [movedClassified, classified]
    simp only [ofContent_content]
    unfold ofContent
    split <;> exact ⟨rfl, rfl⟩
  exact ⟨number, same.1, content, same.2⟩

/-- Some lines of a source are relocated to lines of another source that have the same contents. -/
theorem forall₂_isRelocated {place : Nat → Nat} {source other : Text}
    {before part after otherBefore otherPart otherAfter : List Line}
    (split : ofSource source = before ++ (part ++ after))
    (otherSplit : ofSource other = otherBefore ++ (otherPart ++ otherAfter))
    (contents : otherPart.map content = part.map content)
    (placed : ∀ index < part.length,
      place (before.length + index + 1) = otherBefore.length + index + 1) :
    List.Forall₂ (IsRelocated place) part otherPart := by
  induction part generalizing before otherBefore otherPart with
  | nil =>
      rw [List.map_nil, List.map_eq_nil_iff] at contents
      rw [contents]
      exact .nil
  | cons line rest inductionHypothesis =>
      obtain ⟨moved, otherRest, rfl, sameContent, sameContents⟩ := List.map_eq_cons_iff.1 contents
      have first : line.IsRelocated place moved := by
        have number := placed 0 (Nat.succ_pos _)
        rw [Nat.add_zero, Nat.add_zero, ← number_of_ofSource split,
          ← number_of_ofSource otherSplit] at number
        have member : line ∈ ofSource source := by simp [split]
        have movedMember : moved ∈ ofSource other := by simp [otherSplit]
        exact .of_content member movedMember number.symm sameContent
      refine .cons first ?_
      apply @inductionHypothesis (before ++ [line]) (otherBefore ++ [moved]) otherRest
      · rw [split, List.append_assoc]
        rfl
      · rw [otherSplit, List.append_assoc]
        rfl
      · exact sameContents
      · intro index inside
        have next := placed (index + 1) (Nat.succ_lt_succ inside)
        simp only [List.length_append, List.length_singleton]
        rw [show before.length + 1 + index + 1 = before.length + (index + 1) + 1 by omega, next]
        omega

end Line

namespace Automaton

/-- This is the fence of the doc string that is open in a state. -/
def State.fence? : State → Option Text
  | .docString fence _ _ => some fence
  | _ => none

/-- States correspond when they are equal but for the place of the line that opened a doc string. -/
inductive State.IsRelocated (place : Nat → Nat) : State → State → Prop where
  | same {state : State} : state.fence? = none → IsRelocated place state state
  | docString {fence : Text} {opening moved : Line} {isBackground : Bool} :
      opening.IsRelocated place moved →
      IsRelocated place (.docString fence opening isBackground) (.docString fence moved isBackground)

section Relocated

variable {place : Nat → Nat} {line moved : Line} (relocated : line.IsRelocated place moved)
include relocated

/-- An error on a line moves with its line. -/
theorem agree_onLine {First Second : Type} {corresponds : First → Second → Prop}
    (cause : ParseError.Cause) :
    Agree place corresponds (.error ⟨cause, line.number, line.span⟩)
      (.error ⟨cause, moved.number, moved.span⟩) :=
  .error rfl relocated.number

/-- The automaton finds the same on a line wherever the line stands. -/
theorem agree_unexpected {First Second : Type} {corresponds : First → Second → Prop}
    (expected : Text) :
    Agree place corresponds
      (.error ⟨.unexpectedLine expected (foundOn line), line.number, line.span⟩)
      (.error ⟨.unexpectedLine expected (foundOn moved), moved.number, moved.span⟩) := by
  refine .error ?_ relocated.number
  rw [foundOn, foundOn, relocated.keyword, relocated.content]

/-- At a heading the automaton agrees wherever the line stands. -/
theorem agree_stepHeading {state : State} (outside : state.fence? = none) :
    Agree place (State.IsRelocated place) (stepHeading state line) (stepHeading state moved) := by
  unfold stepHeading
  rw [relocated.keyword]
  split
  case h_1 => exact agree_onLine relocated _
  case h_6 => exact .ok (.same outside)
  all_goals exact .ok (.same rfl)

theorem agree_stepStart :
    Agree place (State.IsRelocated place) (stepStart line) (stepStart moved) := by
  unfold stepStart Line.isBlank
  rw [relocated.keyword, relocated.content]
  split
  · exact .ok (.same rfl)
  · split
    case h_4 => exact agree_unexpected relocated _
    all_goals exact .ok (.same rfl)

theorem agree_stepSection {state : State} (outside : state.fence? = none) (expected : Text) :
    Agree place (State.IsRelocated place) (stepSection state expected line)
      (stepSection state expected moved) := by
  unfold stepSection
  rw [relocated.keyword]
  split
  case h_4 => exact agree_onLine relocated _
  case h_5 => exact agree_stepHeading relocated outside
  all_goals exact agree_unexpected relocated _

theorem agree_stepBody (isBackground : Bool) :
    Agree place (State.IsRelocated place) (stepBody isBackground line)
      (stepBody isBackground moved) := by
  unfold stepBody
  rw [relocated.keyword, relocated.content]
  split
  case h_3 => exact .ok (.docString relocated)
  case h_4 =>
    split
    · exact agree_onLine relocated _
    · exact .ok (.same rfl)
  case h_5 => exact agree_stepHeading relocated rfl
  all_goals exact .ok (.same rfl)

theorem agree_stepExamples (width? : Option Nat) :
    Agree place (State.IsRelocated place) (stepExamples width? line) (stepExamples width? moved) := by
  unfold stepExamples
  rw [relocated.keyword]
  split
  case h_1 =>
    rw [stepRow_eq, stepRow_eq, relocated.content]
    split
    · exact .ok (.same rfl)
    · exact agree_onLine relocated _
  case h_4 => exact .ok (.same rfl)
  case h_5 => exact agree_stepHeading relocated rfl
  all_goals exact agree_unexpected relocated _

/-- A step does not look at the place of its line. -/
theorem agree_step {state other : State} (corresponds : state.IsRelocated place other) :
    Agree place (State.IsRelocated place) (step state line) (step other moved) := by
  cases corresponds with
  | docString opened =>
      rw [step, step, relocated.content]
      split
      · exact .ok (.same rfl)
      · exact .ok (.docString opened)
  | same outside =>
      cases state with
      | start => exact agree_stepStart relocated
      | feature => exact agree_stepSection relocated rfl _
      | rule => exact agree_stepSection relocated rfl _
      | body isBackground => exact agree_stepBody relocated isBackground
      | examples width? => exact agree_stepExamples relocated width?
      | docString fence opening isBackground => cases outside

end Relocated

/-- At the end the automaton agrees, and an open doc string moves with its fence. -/
theorem agree_finish {place : Nat → Nat} {state other : State}
    (corresponds : state.IsRelocated place other) :
    Agree place Eq (finish state) (finish other) := by
  cases corresponds with
  | docString opened => exact agree_onLine opened _
  | same outside =>
      cases state with
      | docString fence opening isBackground => cases outside
      | _ => exact .ok rfl

/-- The automaton does not look at the places of the lines. -/
theorem agree_run {place : Nat → Nat} {lines moved : List Line}
    (relocated : List.Forall₂ (Line.IsRelocated place) lines moved) {state other : State}
    (corresponds : state.IsRelocated place other) :
    Agree place Eq (run state lines) (run other moved) := by
  induction relocated generalizing state other with
  | nil => exact agree_finish corresponds
  | @cons line movedLine rest movedRest first _ inductionHypothesis =>
      rw [run, run]
      rcases (agree_iff ..).1 (agree_step first corresponds) with
        ⟨next, movedNext, corresponds, stepped, movedStepped⟩ |
        ⟨error, movedError, cause, place, stopped, movedStopped⟩
      · rw [stepped, movedStepped]
        exact inductionHypothesis corresponds
      · rw [stopped, movedStopped]
        exact .error cause place

end Automaton

/-- This is the branch with its node on the line to which it was moved. -/
def Branch.relocate (place : Nat → Nat) (branch : Branch) : Branch :=
  ⟨branch.parent, branch.node.kind, place branch.node.line⟩

theorem Branch.map_relocate_id (branches : List Branch) :
    branches.map (Branch.relocate id) = branches :=
  List.map_id branches

/-- Moving the lines keeps branches grounded. -/
theorem Grounded.map_relocate {next : Nat} {branches : List Branch} (grounded : Grounded next branches)
    (place : Nat → Nat) : Grounded next (branches.map (Branch.relocate place)) := by
  induction branches generalizing next with
  | nil => trivial
  | cons branch rest inductionHypothesis => exact ⟨grounded.1, inductionHypothesis grounded.2⟩

/-- This is the document with all nodes but the root moved to other lines. -/
def Document.relocate (place : Nat → Nat) (document : Document) : Document :=
  ⟨document.root, document.branches.map (Branch.relocate place), document.grounded.map_relocate place⟩

theorem Document.relocate_id (document : Document) : document.relocate id = document := by
  unfold relocate
  congr
  exact Branch.map_relocate_id _

/-- The layout of a row moves with its line. -/
theorem Row.map_relocate_layout (place : Nat → Nat) (parent number line : Nat) (cells : List Text) :
    (Row.layout parent number ⟨line, cells⟩).map (Branch.relocate place) =
      Row.layout parent number ⟨place line, cells⟩ := by
  rw [Row.layout, Row.layout, layoutAll_layoutCell, layoutAll_layoutCell, List.map_cons, List.map_map]
  rfl

namespace Line

variable {place : Nat → Nat}

/-- A line that moves stays a heading or none. -/
theorem IsRelocated.isHeading {line moved : Line} (relocated : line.IsRelocated place moved) :
    moved.isHeading = line.isHeading := by
  rw [Line.isHeading, Line.isHeading, opensSection, opensSection, relocated.keyword]

/-- The first heading decides whether examples are met. -/
theorem meetExamples_of_isHeading {line : Line} (rest : List Line) :
    meetExamples (line :: rest) =
      if line.isHeading then decide (line.keyword? = some .examples) else meetExamples rest := by
  rw [meetExamples, List.find?_cons]
  cases line.isHeading <;> rfl

/-- Examples are met wherever the lines stand. -/
theorem meetExamples_relocated {lines moved : List Line}
    (relocated : List.Forall₂ (IsRelocated place) lines moved) :
    meetExamples moved = meetExamples lines := by
  induction relocated with
  | nil => rfl
  | cons first _ inductionHypothesis =>
      rw [meetExamples_of_isHeading, meetExamples_of_isHeading, first.isHeading, first.keyword,
        inductionHypothesis]

/-- Relocated lines have the same doc strings. -/
theorem outside_relocated {lines moved : List Line}
    (relocated : List.Forall₂ (IsRelocated place) lines moved) (open? : Option Text) :
    List.Forall₂ (IsRelocated place) (outside open? lines) (outside open? moved) := by
  induction relocated generalizing open? with
  | nil =>
      rw [outside]
      exact .nil
  | cons first _ inductionHypothesis =>
      cases open? with
      | some fence =>
          rw [outside, outside, first.content]
          exact inductionHypothesis _
      | none =>
          rw [outside, outside, first.content, first.keyword]
          split
          · exact inductionHypothesis _
          · exact .cons first (inductionHypothesis none)

end Line

namespace Above

/-- The branches of a relocated line are those of the line, relocated. -/
theorem branches_relocated {place : Nat → Nat} {line moved : Line}
    (relocated : line.IsRelocated place moved) {after movedAfter : List Line}
    (sameLookahead : Line.meetExamples movedAfter = Line.meetExamples after) (above : Above)
    (next : Nat) :
    above.branches next moved movedAfter =
      (above.branches next line after).map (Branch.relocate place) := by
  unfold branches
  rw [relocated.keyword, relocated.number, relocated.text, relocated.content, sameLookahead]
  split
  case h_7 =>
    split
    · rfl
    · exact (Row.map_relocate_layout ..).symm
  all_goals rfl

/-- A line enters the same place wherever it stands. -/
theorem enter_relocated {place : Nat → Nat} {line moved : Line}
    (relocated : line.IsRelocated place moved) (above : Above) (next : Nat) :
    above.enter next moved = above.enter next line := by
  unfold enter
  rw [relocated.keyword]

/-- Relocated lines grow into relocated branches. -/
theorem growth_relocated {place : Nat → Nat} {lines moved : List Line}
    (relocated : List.Forall₂ (Line.IsRelocated place) lines moved) (above : Above) (next : Nat) :
    above.growth next moved = (above.growth next lines).map (Branch.relocate place) := by
  induction relocated generalizing above next with
  | nil => rfl
  | cons first others inductionHypothesis =>
      rw [growth, growth, branches_relocated first (Line.meetExamples_relocated others),
        enter_relocated first, List.length_map, inductionHypothesis, List.map_append]

end Above

namespace Document

/-- A source parses to the document whose branches grow from its lines when the automaton accepts it. -/
theorem parse_of_growth {place : Nat → Nat} {source other : Text}
    (accepted : Automaton.run .start (Line.ofSource other) = .ok ())
    (grown : Above.root.growth 1 (Line.outside none (Line.ofSource other)) =
      (Above.root.growth 1 (Line.outside none (Line.ofSource source))).map (Branch.relocate place))
    {path : Path} {document : Document} (parsed : parse path source = .ok document) :
    parse path other = .ok (document.relocate place) := by
  obtain ⟨found, foundParsed⟩ := exists_parse_of_run accepted path
  have root : found.root = document.root := by
    obtain ⟨_, -, rfl⟩ := exists_ofFeature_of_parse parsed
    obtain ⟨_, -, rfl⟩ := exists_ofFeature_of_parse foundParsed
    rfl
  have branches : found.branches = document.branches.map (Branch.relocate place) := by
    rw [branches_of_parse foundParsed, branches_of_parse parsed, grown]
  have same : found = document.relocate place := by
    cases found
    cases root
    cases branches
    rfl
  rw [foundParsed, same]

/-- Parsing agrees on two sources when the automaton and the branches agree. -/
theorem agree_parse {place : Nat → Nat} {source other : Text}
    (runs : Agree place Eq (Automaton.run .start (Line.ofSource source))
      (Automaton.run .start (Line.ofSource other)))
    (grown : Above.root.growth 1 (Line.outside none (Line.ofSource other)) =
      (Above.root.growth 1 (Line.outside none (Line.ofSource source))).map (Branch.relocate place))
    (path : Path) :
    Agree place (fun document moved => moved = document.relocate place) (parse path source)
      (parse path other) := by
  rcases (agree_iff ..).1 runs with
    ⟨_, _, -, accepted, otherAccepted⟩ | ⟨error, otherError, cause, line, stopped, otherStopped⟩
  · obtain ⟨document, parsed⟩ := exists_parse_of_run accepted path
    rw [parsed, parse_of_growth otherAccepted grown parsed]
    exact .ok rfl
  · rw [(parse_eq_error_iff path source error).2 stopped,
      (parse_eq_error_iff path other otherError).2 otherStopped]
    exact .error cause line

end Document

end FeatureLint
