import FeatureLint.Proofs.Automaton
import FeatureLint.Proofs.Growth
import FeatureLint.Proofs.Lines

/-!
This file says where parse errors sit and what they depend on. The automaton never looks ahead, so the
line on which it stops is the first bad one. Main statement: an error sits on a line that is not blank,
the text before that line parses, and what follows the line does not matter, except that a doc string
without an end is one that no later line closes.
-/

namespace FeatureLint

namespace Automaton

/-- This is the state after some lines, where the text need not be over. -/
def reach : State → List Line → Except ParseError State
  | state, [] => .ok state
  | state, line :: rest =>
      match step state line with
      | .error error => .error error
      | .ok next => reach next rest

/-- Lines that are gone through begin with a step. -/
theorem exists_step_of_reach {state last : State} {line : Line} {rest : List Line}
    (reached : reach state (line :: rest) = .ok last) :
    ∃ next, step state line = .ok next ∧ reach next rest = .ok last := by
  rw [reach] at reached
  cases moved : step state line with
  | error error =>
      rw [moved] at reached
      cases reached
  | ok next =>
      rw [moved] at reached
      exact ⟨next, rfl, reached⟩

/-- A run goes through the lines and then asks whether the text may end. -/
theorem run_eq_reach (state : State) (lines : List Line) :
    run state lines = (reach state lines).bind finish := by
  induction lines generalizing state with
  | nil => rfl
  | cons line rest inductionHypothesis =>
      rw [run, reach]
      cases step state line with
      | error error => rfl
      | ok next => exact inductionHypothesis next

theorem run_of_reach {state last : State} {lines : List Line}
    (reached : reach state lines = .ok last) : run state lines = finish last := by
  rw [run_eq_reach, reached]
  rfl

/-- Where the automaton stops with an error, it does so whatever follows. -/
theorem run_of_step_eq_error {state last : State} {before : List Line} {line : Line}
    {error : ParseError} (reached : reach state before = .ok last)
    (stopped : step last line = .error error) (after : List Line) :
    run state (before ++ line :: after) = .error error := by
  induction before generalizing state with
  | nil =>
      cases reached
      rw [List.nil_append, run, stopped]
  | cons first rest inductionHypothesis =>
      obtain ⟨next, moved, later⟩ := exists_step_of_reach reached
      rw [List.cons_append, run, moved]
      exact inductionHypothesis later

/-- The automaton stops on a line or at the end of the text. -/
theorem exists_stop {state : State} {lines : List Line} {error : ParseError}
    (failed : run state lines = .error error) :
    (∃ before line after last, lines = before ++ line :: after ∧ reach state before = .ok last ∧
      step last line = .error error) ∨
    ∃ last, reach state lines = .ok last ∧ finish last = .error error := by
  induction lines generalizing state with
  | nil => exact Or.inr ⟨state, rfl, failed⟩
  | cons line rest inductionHypothesis =>
      rw [run] at failed
      cases moved : step state line with
      | error other =>
          rw [moved] at failed
          cases failed
          exact Or.inl ⟨[], line, rest, state, rfl, rfl, moved⟩
      | ok next =>
          rw [moved] at failed
          rcases inductionHypothesis failed with ⟨before, bad, after, last, rfl, reached, stopped⟩ |
            ⟨last, reached, stopped⟩
          · refine Or.inl ⟨line :: before, bad, after, last, rfl, ?_, stopped⟩
            rw [reach, moved]
            exact reached
          · refine Or.inr ⟨last, ?_, stopped⟩
            rw [reach, moved]
            exact reached

/-- What is known when the automaton stops on a line. Inside a doc string it never stops, so the text
before the line could have ended there. -/
structure StopsOn (state : State) (line : Line) (error : ParseError) : Prop where
  onLine : ∃ cause, cause ≠ .unterminatedDocString ∧ error = .onLine line cause
  finished : finish state = .ok ()
  seen : line.isBlank = false ∨ ∃ keyword, line.keyword? = some keyword

/-- An open state may end, so it stops properly on a line with a keyword. -/
theorem StopsOn.of_keyword {state : State} (isOpen : state.isOpen = true) {line : Line}
    {keyword : Keyword} (found : line.keyword? = some keyword) {cause : ParseError.Cause}
    (other : cause ≠ .unterminatedDocString) : StopsOn state line (.onLine line cause) := by
  refine ⟨⟨cause, other, rfl⟩, ?_, Or.inr ⟨keyword, found⟩⟩
  cases state <;> first | contradiction | rfl

section Steps

variable {state : State} {line : Line} {error : ParseError}

theorem stopsOn_of_stepHeading (isOpen : state.isOpen = true)
    (stopped : stepHeading state line = .error error) : StopsOn state line error := by
  unfold stepHeading at stopped
  split at stopped
  case h_1 found =>
    cases stopped
    exact .of_keyword isOpen found (by simp)
  all_goals cases stopped

theorem stopsOn_of_stepStart (stopped : stepStart line = .error error) :
    StopsOn .start line error := by
  unfold stepStart at stopped
  split at stopped
  · cases stopped
  · next notBlank =>
      split at stopped
      case h_4 =>
        cases stopped
        exact ⟨⟨_, by simp, rfl⟩, rfl, Or.inl (Bool.eq_false_iff.2 notBlank)⟩
      all_goals cases stopped

theorem stopsOn_of_stepSection (isOpen : state.isOpen = true) {expected : Text}
    (stopped : stepSection state expected line = .error error) : StopsOn state line error := by
  unfold stepSection at stopped
  split at stopped
  case h_5 => exact stopsOn_of_stepHeading isOpen stopped
  all_goals
    next found =>
      cases stopped
      exact .of_keyword isOpen found (by simp)

theorem stopsOn_of_stepBody {isBackground : Bool}
    (stopped : stepBody isBackground line = .error error) :
    StopsOn (.body isBackground) line error := by
  unfold stepBody at stopped
  split at stopped
  case h_4 found =>
    split at stopped
    · cases stopped
      exact .of_keyword rfl found (by simp)
    · cases stopped
  case h_5 => exact stopsOn_of_stepHeading rfl stopped
  all_goals cases stopped

theorem stopsOn_of_stepExamples {width? : Option Nat}
    (stopped : stepExamples width? line = .error error) :
    StopsOn (.examples width?) line error := by
  unfold stepExamples at stopped
  split at stopped
  case h_1 found =>
    rw [stepRow_eq] at stopped
    split at stopped
    · cases stopped
    · cases stopped
      exact .of_keyword rfl found (by simp)
  case h_4 => cases stopped
  case h_5 => exact stopsOn_of_stepHeading rfl stopped
  all_goals
    next found =>
      cases stopped
      exact .of_keyword rfl found (by simp)

/-- Wherever the automaton stops on a line, it stops properly. -/
theorem stopsOn_of_step (stopped : step state line = .error error) : StopsOn state line error := by
  cases state with
  | start => exact stopsOn_of_stepStart stopped
  | feature => exact stopsOn_of_stepSection rfl stopped
  | rule => exact stopsOn_of_stepSection rfl stopped
  | body isBackground => exact stopsOn_of_stepBody stopped
  | examples width? => exact stopsOn_of_stepExamples stopped
  | docString fence opening isBackground =>
      rw [step] at stopped
      split at stopped <;> cases stopped

end Steps

/-- The automaton comes into a doc string from a body, by a fence. -/
theorem step_eq_docString {state : State} {line opening : Line} {fence : Text} {isBackground : Bool}
    (moved : step state line = .ok (.docString fence opening isBackground)) :
    (state = .docString fence opening isBackground ∧ Text.startsWith line.content fence = false) ∨
      (state = .body isBackground ∧ line = opening ∧ line.keyword? = some .fence ∧
        fence = line.content.take 3) := by
  have heading : ∀ other : State, stepHeading other line = .ok (.docString fence opening isBackground) →
      other = .docString fence opening isBackground := by
    intro other same
    unfold stepHeading at same
    split at same <;> cases same
    rfl
  cases state with
  | start =>
      simp only [step, stepStart] at moved
      split at moved
      · cases moved
      · split at moved <;> cases moved
  | feature | rule =>
      simp only [step, stepSection] at moved
      split at moved
      case h_5 => cases heading _ moved
      all_goals cases moved
  | body inBackground =>
      simp only [step, stepBody] at moved
      split at moved
      case h_3 found =>
        cases moved
        exact Or.inr ⟨rfl, rfl, found, rfl⟩
      case h_4 => split at moved <;> cases moved
      case h_5 => cases heading _ moved
      all_goals cases moved
  | examples width? =>
      simp only [step, stepExamples, stepRow_eq] at moved
      split at moved
      case h_1 => split at moved <;> cases moved
      case h_5 => cases heading _ moved
      all_goals cases moved
  | docString known first inBackground =>
      simp only [step] at moved
      split at moved
      · cases moved
      · next continues =>
          cases moved
          exact Or.inl ⟨rfl, Bool.eq_false_iff.2 continues⟩

/-- Lines that end in a doc string hold the fence that opened it, and no line after it closed it. -/
theorem exists_opening {state : State} {lines : List Line} {opening : Line} {fence : Text}
    {isBackground : Bool}
    (reached : reach state lines = .ok (.docString fence opening isBackground)) :
    (state = .docString fence opening isBackground ∧
      ∀ line ∈ lines, Text.startsWith line.content fence = false) ∨
    ∃ before after, lines = before ++ opening :: after ∧ reach state before = .ok (.body isBackground) ∧
      opening.keyword? = some .fence ∧
      ∀ line ∈ after, Text.startsWith line.content (opening.content.take 3) = false := by
  induction lines generalizing state with
  | nil =>
      cases reached
      exact Or.inl ⟨rfl, List.forall_mem_nil _⟩
  | cons line rest inductionHypothesis =>
      obtain ⟨next, moved, later⟩ := exists_step_of_reach reached
      rcases inductionHypothesis later with ⟨rfl, unclosed⟩ | ⟨before, after, rfl, entered, rest⟩
      · rcases step_eq_docString moved with ⟨rfl, continues⟩ | ⟨rfl, rfl, isFence, rfl⟩
        · exact Or.inl ⟨rfl, List.forall_mem_cons.2 ⟨continues, unclosed⟩⟩
        · exact Or.inr ⟨[], rest, rfl, rfl, isFence, unclosed⟩
      · refine Or.inr ⟨line :: before, after, rfl, ?_, rest⟩
        rw [reach, moved]
        exact entered

end Automaton

namespace Document

/-- A text fails with exactly the error with which the automaton stops. -/
theorem parse_eq_error_iff (path : Path) (source : Text) (error : ParseError) :
    parse path source = .error error ↔
      Automaton.run .start (Line.ofSource source) = .error error := by
  rw [Automaton.run_start, parse]
  cases Feature.ofLines (Line.ofSource source) <;> simp [Except.map]

/-- A text that the automaton accepts is parsed. -/
theorem exists_parse_of_run {source : Text}
    (accepted : Automaton.run .start (Line.ofSource source) = .ok ()) (path : Path) :
    ∃ document, parse path source = .ok document := by
  cases parsed : parse path source with
  | ok document => exact ⟨document, rfl⟩
  | error error =>
      rw [parse_eq_error_iff, accepted] at parsed
      cases parsed

/-- The automaton accepts a text that is parsed. -/
theorem run_of_parse {path : Path} {source : Text} {document : Document}
    (parsed : parse path source = .ok document) :
    Automaton.run .start (Line.ofSource source) = .ok () := by
  obtain ⟨feature?, read, -⟩ := exists_ofFeature_of_parse parsed
  rw [Automaton.run_start, read]
  rfl

end Document

namespace Line

/-- The line at a place has the number of the place, counted from one. -/
theorem number_of_getElem? {source : Text} {index : Nat} {line : Line}
    (found : (ofSource source)[index]? = some line) : line.number = index + 1 := by
  obtain ⟨inside, same⟩ := List.getElem?_eq_some_iff.1 found
  have split := List.take_append_drop index (ofSource source)
  rw [List.drop_eq_getElem_cons inside, same] at split
  rw [number_of_ofSource split.symm, List.length_take, Nat.min_eq_left (Nat.le_of_lt inside)]

/-- A line with a keyword is not blank when blank lines have none. -/
theorem isBlank_eq_false_of_found {line : Line}
    (blankLine : line.isBlank = true → line.keyword? = none) {keyword : Keyword}
    (found : line.keyword? = some keyword) : line.isBlank = false := by
  refine Bool.eq_false_iff.2 fun blank => ?_
  rw [blankLine blank] at found
  cases found

/-- A line of a source with a keyword is not blank. -/
theorem isBlank_eq_false_of_keyword? {source : Text} {line : Line} (member : line ∈ ofSource source)
    {keyword : Keyword} (found : line.keyword? = some keyword) : line.isBlank = false :=
  isBlank_eq_false_of_found (keyword?_of_isBlank member) found

/-- What a line looks like does not tell how it was classified. -/
def look (line : Line) : Text × Span :=
  (line.content, line.span)

/-- Sources whose lines look the same have the same lines, because a line is classified by its content
and counted by its place. -/
theorem ofSource_eq_of_map_look {source other : Text}
    (same : (ofSource source).map look = (ofSource other).map look) :
    ofSource source = ofSource other := by
  apply List.ext_getElem?
  intro index
  have here := congrArg (fun looks => looks[index]?) same
  simp only [List.getElem?_map] at here
  cases first : (ofSource source)[index]? with
  | none =>
      rw [first] at here
      exact (Option.map_eq_none_iff.1 here.symm).symm
  | some line =>
      rw [first] at here
      obtain ⟨twin, second, looks⟩ := Option.map_eq_some_iff.1 here.symm
      rw [second, (ofContent_of_mem_ofSource (List.mem_of_getElem? first)).1,
        (ofContent_of_mem_ofSource (List.mem_of_getElem? second)).1, number_of_getElem? first,
        number_of_getElem? second, (Prod.mk.inj looks).1, (Prod.mk.inj looks).2]

/-- Two sources start alike when some first lines of them look the same. -/
def StartAlike (count : Nat) (source other : Text) : Prop :=
  ((ofSource source).take count).map look = ((ofSource other).take count).map look

/-- Sources that start alike have the same first lines. -/
theorem StartAlike.take_eq {count : Nat} {source other : Text}
    (alike : StartAlike count source other) :
    (ofSource source).take count = (ofSource other).take count := by
  rw [StartAlike, ← ofSource_firstLines, ← ofSource_firstLines] at alike
  rw [← ofSource_firstLines, ← ofSource_firstLines, ofSource_eq_of_map_look alike]

end Line

namespace Document

/-- The text before a line parses when the automaton could have finished there. -/
theorem exists_parse_before {source : Text} {before after : List Line} {line : Line}
    (split : Line.ofSource source = before ++ line :: after) {state : Automaton.State}
    (reached : Automaton.reach .start before = .ok state)
    (finished : Automaton.finish state = .ok ()) (path : Path) :
    ∃ document, parse path (Text.firstLines (line.number - 1) source) = .ok document := by
  apply exists_parse_of_run
  rw [Line.ofSource_firstLines, Line.number_of_ofSource split, Nat.add_sub_cancel, split,
    List.take_left, Automaton.run_of_reach reached, finished]

/-- A line after the opening of a doc string is one of the lines behind it. -/
theorem mem_after_of_number_lt {source : Text} {before after : List Line} {line later : Line}
    (split : Line.ofSource source = before ++ line :: after)
    (member : later ∈ Line.ofSource source) (behind : line.number < later.number) :
    later ∈ after := by
  have increasing := Line.pairwise_number_ofSource source
  rw [split, List.pairwise_append] at increasing
  rw [split] at member
  rcases List.mem_append.1 member with early | late
  · have smaller := increasing.2.2 later early line List.mem_cons_self
    omega
  · rcases List.mem_cons.1 late with rfl | inside
    · omega
    · exact inside

/-- A parse error sits on the first bad line. The line is not blank, the error has its span, the text
before the line parses, and every text with the same lines up to this one fails with the same error,
unless the error is a doc string that no later line closes. -/
theorem parse_error_on_first_bad_line {path : Path} {source : Text} {error : ParseError}
    (failed : parse path source = .error error) :
    ∃ line ∈ Line.ofSource source,
      line.number = error.line ∧ line.isBlank = false ∧ line.span = error.span ∧
      Text.slice? source error.span = some line.content ∧
      (∃ document, parse path (Text.firstLines (error.line - 1) source) = .ok document) ∧
      (error.cause ≠ .unterminatedDocString →
        ∀ other, Line.StartAlike error.line source other → parse path other = .error error) ∧
      (error.cause = .unterminatedDocString →
        ∀ later ∈ Line.ofSource source, error.line < later.number →
          Text.startsWith later.content (line.content.take 3) = false) := by
  rcases Automaton.exists_stop ((parse_eq_error_iff path source error).1 failed) with
    ⟨before, line, after, state, split, reached, stopped⟩ | ⟨state, reached, stopped⟩
  · obtain ⟨⟨cause, closed, rfl⟩, finished, seen⟩ := Automaton.stopsOn_of_step stopped
    have member : line ∈ Line.ofSource source := by simp [split]
    have notBlank : line.isBlank = false :=
      seen.elim id fun ⟨_, found⟩ => Line.isBlank_eq_false_of_keyword? member found
    refine ⟨line, member, rfl, notBlank, rfl, Line.slice?_of_mem_ofSource member,
      exists_parse_before split reached finished path, ?_, fun unclosed => absurd unclosed closed⟩
    intro _ other alike
    have same := alike.take_eq
    rw [ParseError.onLine, Line.number_of_ofSource split, split, List.take_append,
      List.take_of_length_le (Nat.le_succ _), Nat.add_sub_cancel_left, List.take_succ_cons,
      List.take_zero] at same
    rw [parse_eq_error_iff, ← List.take_append_drop (before.length + 1) (Line.ofSource other), ← same,
      List.append_assoc, List.singleton_append]
    exact Automaton.run_of_step_eq_error reached stopped _
  · cases state <;> cases stopped
    case inr.docString fence opening isBackground =>
      have opened := (Automaton.exists_opening reached).resolve_left fun same => by cases same.1
      obtain ⟨before, after, split, entered, isFence, unclosed⟩ := opened
      have member : opening ∈ Line.ofSource source := by simp [split]
      refine ⟨opening, member, rfl, Line.isBlank_eq_false_of_keyword? member isFence, rfl,
        Line.slice?_of_mem_ofSource member, exists_parse_before split entered rfl path,
        fun closed => absurd rfl closed, ?_⟩
      intro _ later laterMember behind
      exact unclosed later (mem_after_of_number_lt split laterMember behind)

/-- A row that is too long for its table fails whatever follows it, and the fence of a doc string fails
because the other kind of fence does not close it. -/
theorem parse_error_on_first_bad_line_in_table :
    let path : Path := ⟨"a.feature".toList⟩
    let table := "Feature: F\nScenario: S\n\tExamples:\n| é |\n\t| é | b |\n| c |\n".toList
    let misfit : ParseError := ⟨.misalignedRow 1 2, 5, ⟨42, 52⟩⟩
    let unclosed := "Feature: F\nScenario: S\n  ```json\n\"\"\"\n".toList
    let opened : ParseError := ⟨.unterminatedDocString, 3, ⟨25, 32⟩⟩
    parse path table = .error misfit ∧ parse path unclosed = .error opened ∧
      (∀ other, Line.StartAlike 5 table other → parse path other = .error misfit) ∧
      (∃ document, parse path (Text.firstLines 4 table) = .ok document) ∧
      ∃ line ∈ Line.ofSource unclosed, line.number = 3 ∧
        Text.slice? unclosed ⟨25, 32⟩ = some line.content ∧
        ∀ later ∈ Line.ofSource unclosed, 3 < later.number →
          Text.startsWith later.content (line.content.take 3) = false := by
  intro path table misfit unclosed opened
  have tableFailed : parse path table = .error misfit := by with_unfolding_all rfl
  have unclosedFailed : parse path unclosed = .error opened := by with_unfolding_all rfl
  obtain ⟨row, -, -, -, -, -, before, same, -⟩ := parse_error_on_first_bad_line tableFailed
  obtain ⟨fence, member, number, -, -, content, -, -, behind⟩ :=
    parse_error_on_first_bad_line unclosedFailed
  exact ⟨tableFailed, unclosedFailed, same (by decide), before, fence, member, number, content,
    behind rfl⟩

end Document

end FeatureLint
