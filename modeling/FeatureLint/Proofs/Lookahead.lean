import FeatureLint.Proofs.DocStrings
import FeatureLint.Proofs.Printing

/-!
This file says that looking ahead never contradicts what is read later. The state of the automaton
follows from the last line outside doc strings that opened a section, and a scenario before examples
is read like an outline. Main statement: examples below a scenario or an outline are never refused, and
the spelling of a keyword does not matter, not even whether a scenario with examples is called an
outline.
-/

namespace FeatureLint

namespace Line

/-- This is the last of the lines that opens a section. -/
def lastSection? (lines : List Line) : Option Line :=
  lines.reverse.find? opensSection

/-- The first line is the last section only when no later line is one. -/
theorem lastSection?_cons (line : Line) (rest : List Line) :
    lastSection? (line :: rest) =
      (lastSection? rest).or (if line.opensSection then some line else none) := by
  rw [lastSection?, List.reverse_cons, List.find?_append, lastSection?, List.find?_singleton]

/-- The last section outside doc strings changes only with a line outside doc strings. -/
theorem lastSection?_outside_cons (open? : Option Text) (line : Line) (rest : List Line)
    (section? : Option Line) :
    (lastSection? (outside open? (line :: rest))).or section? =
      (lastSection? (outside (line.fenceAfter open?) rest)).or
        (if open? = none ∧ line.opensSection = true then some line else section?) := by
  rw [outside_cons]
  by_cases shown : open? = none ∧ line.keyword? ≠ some .fence
  · rw [if_pos shown, List.singleton_append, lastSection?_cons, Option.or_assoc]
    cases line.opensSection <;> simp [shown]
  · have hidden : ¬ (open? = none ∧ line.opensSection = true) := by
      rintro ⟨outside, opens⟩
      exact shown ⟨outside, (keyword?_ne_of_isHeading (isHeading_of_opensSection opens)).1⟩
    rw [if_neg shown, if_neg hidden, List.nil_append]

end Line

namespace Automaton

/-- A state is under the keyword of the last line that opened a section. -/
def State.IsUnder (section? : Option Keyword) : State → Prop
  | .start => section? = none
  | .feature => section? = some .feature
  | .rule => section? = some .rule
  | .body isBackground | .docString _ _ isBackground =>
      if isBackground then section? = some .background
      else section? = some .scenario ∨ section? = some .outline
  | .examples _ => section? = some .scenario ∨ section? = some .outline

/-- This is the last section after a line outside doc strings. -/
def sectionAfter (section? : Option Keyword) (line : Line) : Option Keyword :=
  if line.opensSection then line.keyword? else section?

section Sections

variable {section? : Option Keyword} {state next : State} {line : Line}

/-- A heading is the last section after its line. -/
theorem sectionAfter_of_keyword? {keyword : Keyword} (found : line.keyword? = some keyword) :
    sectionAfter section? line = if keyword.opensSection then some keyword else section? := by
  rw [sectionAfter, Line.opensSection, found, Option.any_some]

/-- At a heading the state follows the last section. -/
theorem isUnder_stepHeading (under : state.IsUnder section?)
    (moved : stepHeading state line = .ok next) : next.IsUnder (sectionAfter section? line) := by
  by_cases opens : line.opensSection = true
  · obtain ⟨keyword, found, isSection⟩ := Line.exists_keyword_of_opensSection opens
    rw [sectionAfter, if_pos opens, found]
    unfold stepHeading at moved
    rw [found] at moved
    cases keyword <;> cases isSection <;> cases moved
    · rfl
    · rfl
    · exact Or.inl rfl
    · exact Or.inr rfl
  · rw [stepHeading_of_not_opensSection state opens] at moved
    cases moved
    rw [sectionAfter, if_neg opens]
    exact under

theorem isUnder_stepSection (under : state.IsUnder section?) {expected : Text}
    (moved : stepSection state expected line = .ok next) :
    next.IsUnder (sectionAfter section? line) := by
  unfold stepSection at moved
  split at moved
  case h_5 => exact isUnder_stepHeading under moved
  all_goals cases moved

theorem isUnder_stepStart (blankLine : line.isBlank = true → line.keyword? = none)
    (moved : stepStart line = .ok next) : next.IsUnder (sectionAfter none line) := by
  unfold stepStart at moved
  split at moved
  · next blank =>
      cases moved
      rw [sectionAfter, Line.opensSection, blankLine blank]
      rfl
  · split at moved
    case h_4 => cases moved
    all_goals
      next found =>
        cases moved
        rw [sectionAfter_of_keyword? found]
        rfl

theorem isUnder_stepBody {isBackground : Bool} (under : (State.body isBackground).IsUnder section?)
    (moved : stepBody isBackground line = .ok next) : next.IsUnder (sectionAfter section? line) := by
  unfold stepBody at moved
  split at moved
  case h_5 => exact isUnder_stepHeading under moved
  case h_4 found =>
    rw [sectionAfter_of_keyword? found]
    split at moved
    · cases moved
    · next notBackground =>
        cases moved
        rw [Bool.not_eq_true] at notBackground
        rw [notBackground] at under
        exact under
  all_goals
    next found =>
      cases moved
      rw [sectionAfter_of_keyword? found]
      exact under

theorem isUnder_stepExamples {width? : Option Nat} (under : (State.examples width?).IsUnder section?)
    (moved : stepExamples width? line = .ok next) : next.IsUnder (sectionAfter section? line) := by
  unfold stepExamples at moved
  split at moved
  case h_5 => exact isUnder_stepHeading under moved
  case h_1 found =>
    rw [stepRow_eq] at moved
    rw [sectionAfter_of_keyword? found]
    split at moved
    · cases moved
      exact under
    · cases moved
  case h_4 found =>
    cases moved
    rw [sectionAfter_of_keyword? found]
    exact under
  all_goals cases moved

/-- A step goes below the section that its line opens, or it stays below the same section. -/
theorem isUnder_step (blankLine : line.isBlank = true → line.keyword? = none)
    (under : state.IsUnder section?) (moved : step state line = .ok next) :
    next.IsUnder (if state.fence? = none then sectionAfter section? line else section?) := by
  cases state with
  | start =>
      cases under
      exact isUnder_stepStart blankLine moved
  | feature => exact isUnder_stepSection under moved
  | rule => exact isUnder_stepSection under moved
  | body isBackground => exact isUnder_stepBody under moved
  | examples width? => exact isUnder_stepExamples under moved
  | docString fence opening isBackground =>
      rw [step] at moved
      split at moved <;>
        cases moved <;> exact under

end Sections

/-- The state of the automaton is under the last line outside doc strings that opened a section. -/
theorem isUnder_reach {state last : State} {lines : List Line} {section? : Option Line}
    (blankLines : ∀ line ∈ lines, line.isBlank = true → line.keyword? = none)
    (under : state.IsUnder (section?.bind Line.keyword?)) (reached : reach state lines = .ok last) :
    last.IsUnder
      (((Line.lastSection? (Line.outside state.fence? lines)).or section?).bind Line.keyword?) := by
  induction lines generalizing state section? with
  | nil =>
      cases reached
      cases last.fence? <;> exact under
  | cons line rest inductionHypothesis =>
      obtain ⟨blankLine, blankRest⟩ := List.forall_mem_cons.1 blankLines
      obtain ⟨next, moved, later⟩ := exists_step_of_reach reached
      have stepped := isUnder_step blankLine under moved
      have same : (if state.fence? = none ∧ line.opensSection = true then some line
          else section?).bind Line.keyword? =
          if state.fence? = none then sectionAfter (section?.bind Line.keyword?) line
          else section?.bind Line.keyword? := by
        unfold sectionAfter
        by_cases outside : state.fence? = none <;>
          by_cases opens : line.opensSection = true <;> simp [outside, opens]
      rw [Line.lastSection?_outside_cons, ← fence?_step blankLine moved]
      exact inductionHypothesis blankRest (same ▸ stepped) later

/-- Examples are refused only right below a feature, a rule or a background. -/
theorem step_eq_examplesOutsideOutline {state : State} {line : Line} {error : ParseError}
    (stopped : step state line = .error error) (cause : error.cause = .examplesOutsideOutline) :
    line.keyword? = some .examples ∧ error.line = line.number ∧
      (state = .feature ∨ state = .rule ∨ state = .body true) := by
  have heading (other : State) : stepHeading other line ≠ .error error := by
    intro refused
    unfold stepHeading at refused
    split at refused
    case h_1 =>
      cases refused
      cases cause
    all_goals cases refused
  cases state with
  | start =>
      simp only [step, stepStart] at stopped
      split at stopped
      · cases stopped
      · split at stopped <;> cases stopped
        cases cause
  | feature | rule =>
      simp only [step, stepSection] at stopped
      split at stopped
      case h_4 found =>
        cases stopped
        exact ⟨found, rfl, by simp⟩
      case h_5 => exact absurd stopped (heading _)
      all_goals
        cases stopped
        cases cause
  | body isBackground =>
      simp only [step, stepBody] at stopped
      split at stopped
      case h_4 found =>
        split at stopped
        · next background =>
            cases stopped
            exact ⟨found, rfl, by simp [background]⟩
        · cases stopped
      case h_5 => exact absurd stopped (heading _)
      all_goals cases stopped
  | examples width? =>
      simp only [step, stepExamples, stepRow_eq] at stopped
      split at stopped
      case h_1 =>
        split at stopped
        · cases stopped
        · cases stopped
          cases cause
      case h_4 => cases stopped
      case h_5 => exact absurd stopped (heading _)
      all_goals
        cases stopped
        cases cause
  | docString fence opening isBackground =>
      rw [step] at stopped
      split at stopped <;> cases stopped

/-- Where examples are refused, the last section above them is a feature, a rule or a background. -/
theorem exists_section_of_examplesOutsideOutline {lines : List Line} {error : ParseError}
    (blankLines : ∀ line ∈ lines, line.isBlank = true → line.keyword? = none)
    (failed : run .start lines = .error error) (cause : error.cause = .examplesOutsideOutline) :
    ∃ before line after opening, lines = before ++ line :: after ∧ error.line = line.number ∧
      line.keyword? = some .examples ∧
      Line.lastSection? (Line.outside none before) = some opening ∧
      opening.keyword? ∈ [some .feature, some .rule, some .background] := by
  rcases exists_stop failed with
    ⟨before, line, after, state, rfl, reached, stopped⟩ | ⟨state, -, stopped⟩
  · obtain ⟨isExamples, number, states⟩ := step_eq_examplesOutsideOutline stopped cause
    have blankBefore := (List.forall_mem_append.1 blankLines).1
    have atStart : State.start.IsUnder ((none : Option Line).bind Line.keyword?) := rfl
    have under := isUnder_reach blankBefore atStart reached
    rw [Option.or_none] at under
    have known : ∃ keyword, some keyword ∈ [some Keyword.feature, some .rule, some .background] ∧
        (Line.lastSection? (Line.outside none before)).bind Line.keyword? = some keyword := by
      rcases states with rfl | rfl | rfl
      · exact ⟨.feature, by decide, under⟩
      · exact ⟨.rule, by decide, under⟩
      · exact ⟨.background, by decide, under⟩
    obtain ⟨keyword, listed, found⟩ := known
    obtain ⟨opening, isLast, isSection⟩ := Option.bind_eq_some_iff.1 found
    rw [← isSection] at listed
    exact ⟨before, line, after, opening, rfl, number, isExamples, isLast, listed⟩
  · cases state <;> cases stopped
    cases cause

end Automaton

/-- Before the given lines one keyword may take the place of the other one. A scenario and an outline
are exchanged only where the next heading outside doc strings is one of examples. -/
def Keyword.Exchanges (after : List Line) (first second : Keyword) : Prop :=
  (first = second ∧ first ∈ [scenario, outline, examples]) ∨
    (Line.meetExamples (Line.outside none after) = true ∧
      first ∈ [scenario, outline] ∧ second ∈ [scenario, outline])

/-- Examples are exchanged with examples, and scenarios and outlines with each other. -/
theorem Keyword.Exchanges.cases {after : List Line} {first second : Keyword}
    (exchanges : Keyword.Exchanges after first second) :
    (first = .examples ∧ second = .examples) ∨
      (first = .scenario ∨ first = .outline) ∧ (second = .scenario ∨ second = .outline) := by
  rcases exchanges with ⟨rfl, listed⟩ | ⟨-, listed, otherListed⟩
  · simp only [List.mem_cons, List.not_mem_nil, or_false] at listed
    rcases listed with rfl | rfl | rfl <;> simp
  · simp only [List.mem_cons, List.not_mem_nil, or_false] at listed otherListed
    exact Or.inr ⟨listed, otherListed⟩

/-- Keywords that may be exchanged are no fences. -/
theorem Keyword.Exchanges.ne_fence {after : List Line} {first second : Keyword}
    (exchanges : Keyword.Exchanges after first second) :
    some first ≠ some .fence ∧ some second ≠ some .fence := by
  rcases exchanges.cases with ⟨rfl, rfl⟩ | ⟨rfl | rfl, rfl | rfl⟩ <;> decide

namespace Line

/-- The second lines are the first ones with some keywords spelled in another way, all of them on lines
outside doc strings. The fence is that of the doc string that is open before the lines. -/
inductive Respelled : Option Text → List Line → List Line → Prop where
  | nil {open? : Option Text} : Respelled open? [] []
  | keep {open? : Option Text} {line other : Line} {rest others : List Line} :
      other.content = line.content → Respelled (line.fenceAfter open?) rest others →
      Respelled open? (line :: rest) (other :: others)
  | exchange {line other : Line} {rest others : List Line} {first second : Text × Keyword}
      {payload : Text} :
      first ∈ Keyword.spellings → second ∈ Keyword.spellings →
      Keyword.Exchanges rest first.2 second.2 →
      line.content = first.1 ++ payload → other.content = second.1 ++ payload →
      Respelled none rest others → Respelled none (line :: rest) (other :: others)

/-- Lines read alike when each of them is the same as the other one but for its bytes, or has a keyword
that may take the place of the other one. -/
inductive ReadAlike : Option Text → List Line → List Line → Prop where
  | nil {open? : Option Text} : ReadAlike open? [] []
  | keep {open? : Option Text} {line other : Line} {rest others : List Line} :
      line.IsRelocated id other → ReadAlike (line.fenceAfter open?) rest others →
      ReadAlike open? (line :: rest) (other :: others)
  | exchange {line other : Line} {rest others : List Line} {first second : Keyword} :
      line.keyword? = some first → other.keyword? = some second → Keyword.Exchanges rest first second →
      other.text = line.text → other.number = line.number →
      ReadAlike none rest others → ReadAlike none (line :: rest) (other :: others)

/-- A line that starts with a spelling has its keyword. -/
theorem keyword?_of_spelling {source : Text} {line : Line} (member : line ∈ ofSource source)
    {entry : Text × Keyword} (listed : entry ∈ Keyword.spellings) {payload : Text}
    (content : line.content = entry.1 ++ payload) :
    line.keyword? = some entry.2 ∧ line.text = Text.trim payload := by
  rw [(ofContent_of_mem_ofSource member).1, content, ofContent, Keyword.read?_append listed]
  exact ⟨rfl, rfl⟩

/-- A line of a source is numbered by the lines before it. -/
theorem head_of_ofSource {source : Text} {before rest : List Line} {line : Line}
    (split : ofSource source = before ++ line :: rest) :
    line ∈ ofSource source ∧ line.number = before.length + 1 ∧
      ofSource source = before ++ [line] ++ rest := by
  refine ⟨by simp [split], number_of_ofSource split, ?_⟩
  rw [split, List.append_assoc, List.singleton_append]

/-- Lines of two sources that are spelled in different ways read alike. -/
theorem Respelled.readAlike {open? : Option Text} {lines others : List Line}
    (respelled : Respelled open? lines others) {source other : Text} {before otherBefore : List Line}
    (split : ofSource source = before ++ lines) (otherSplit : ofSource other = otherBefore ++ others)
    (sameLength : otherBefore.length = before.length) : ReadAlike open? lines others := by
  induction respelled generalizing before otherBefore with
  | nil => exact .nil
  | keep content _ inductionHypothesis =>
      obtain ⟨member, number, later⟩ := head_of_ofSource split
      obtain ⟨otherMember, otherNumber, otherLater⟩ := head_of_ofSource otherSplit
      rw [sameLength, ← number] at otherNumber
      refine .keep (.of_content member otherMember otherNumber content) ?_
      exact inductionHypothesis later otherLater (by simp [sameLength])
  | exchange listed otherListed exchanges content otherContent _ inductionHypothesis =>
      obtain ⟨member, number, later⟩ := head_of_ofSource split
      obtain ⟨otherMember, otherNumber, otherLater⟩ := head_of_ofSource otherSplit
      obtain ⟨found, text⟩ := keyword?_of_spelling member listed content
      obtain ⟨otherFound, otherText⟩ := keyword?_of_spelling otherMember otherListed otherContent
      rw [sameLength, ← number] at otherNumber
      refine .exchange found otherFound exchanges (otherText.trans text.symm) otherNumber ?_
      exact inductionHypothesis later otherLater (by simp [sameLength])

/-- Lines that are read alike meet examples alike. -/
theorem ReadAlike.meetExamples_eq {open? : Option Text} {lines others : List Line}
    (alike : ReadAlike open? lines others) :
    meetExamples (outside open? others) = meetExamples (outside open? lines) := by
  induction alike with
  | nil => rfl
  | keep relocated _ inductionHypothesis =>
      rw [outside_cons, outside_cons, relocated.keyword, relocated.fenceAfter_eq]
      split
      · rw [List.singleton_append, List.singleton_append, meetExamples_of_isHeading,
          meetExamples_of_isHeading, relocated.isHeading, relocated.keyword, inductionHypothesis]
      · exact inductionHypothesis
  | @exchange line other rest others first second found otherFound exchanges _ _ _
      inductionHypothesis =>
      rcases exchanges.cases with ⟨rfl, rfl⟩ | ⟨rfl | rfl, rfl | rfl⟩
      all_goals
        rw [outside_of_not_fence rest (by simp [found]),
          outside_of_not_fence others (by simp [otherFound]), meetExamples_cons found,
          meetExamples_cons otherFound]
        rfl

end Line

namespace Above

/-- Lines whose keywords are exchanged grow into the same node. -/
theorem branches_of_exchanges {line other : Line} {rest others : List Line} {first second : Keyword}
    (found : line.keyword? = some first) (otherFound : other.keyword? = some second)
    (exchanges : Keyword.Exchanges rest first second) (text : other.text = line.text)
    (number : other.number = line.number)
    (sameLookahead : Line.meetExamples (Line.outside none others) =
      Line.meetExamples (Line.outside none rest)) (above : Above) (next : Nat) :
    above.branches next other (Line.outside none others) =
        above.branches next line (Line.outside none rest) ∧
      above.enter next other = above.enter next line := by
  unfold branches enter
  rw [found, otherFound, text, number, sameLookahead]
  rcases exchanges with ⟨rfl, listed⟩ | ⟨meets, listed, otherListed⟩
  · simp only [List.mem_cons, List.not_mem_nil, or_false] at listed
    rcases listed with rfl | rfl | rfl <;> exact ⟨rfl, rfl⟩
  · -- The examples ahead make a scenario an outline, so the two keywords grow into the same kind.
    rw [meets]
    simp only [List.mem_cons, List.not_mem_nil, or_false] at listed otherListed
    rcases listed with rfl | rfl <;> rcases otherListed with rfl | rfl <;> exact ⟨rfl, rfl⟩

/-- Lines that read alike grow into the same branches. -/
theorem growth_of_readAlike {open? : Option Text} {lines others : List Line}
    (alike : Line.ReadAlike open? lines others) (above : Above) (next : Nat) :
    above.growth next (Line.outside open? others) = above.growth next (Line.outside open? lines) := by
  induction alike generalizing above next with
  | nil => rfl
  | @keep open? line other rest others relocated alike inductionHypothesis =>
      rw [Line.outside_cons, Line.outside_cons, relocated.keyword, relocated.fenceAfter_eq]
      split
      · have same := branches_relocated relocated alike.meetExamples_eq above next
        rw [Branch.map_relocate_id] at same
        rw [List.singleton_append, List.singleton_append, growth, growth, same,
          enter_relocated relocated, inductionHypothesis]
      · exact inductionHypothesis above next
  | @exchange line other rest others first second found otherFound exchanges text number alike
      inductionHypothesis =>
      have same := branches_of_exchanges found otherFound exchanges text number alike.meetExamples_eq
        above next
      rw [Line.outside_of_not_fence rest (by rw [found]; exact exchanges.ne_fence.1),
        Line.outside_of_not_fence others (by rw [otherFound]; exact exchanges.ne_fence.2), growth,
        growth, same.1, same.2, inductionHypothesis]

end Above

namespace Automaton

/-- Below the feature a scenario or an outline opens a body, whatever was read before it. -/
theorem step_of_scenario {state : State} (isOpen : state.isOpen = true) {line : Line}
    {keyword : Keyword} (found : line.keyword? = some keyword)
    (listed : keyword = .scenario ∨ keyword = .outline) : step state line = .ok (.body false) := by
  have opens : line.opensSection = true := by
    rw [Line.opensSection, found]
    rcases listed with rfl | rfl <;> rfl
  rw [step_of_opensSection isOpen opens, step, stepSection, stepHeading, found]
  rcases listed with rfl | rfl <;> rfl

/-- Lines whose keywords are exchanged make the same step, or both are refused. -/
theorem step_of_exchanges {state : State} (outside : state.fence? = none) {line other : Line}
    (notBlank : line.isBlank = false) (otherNotBlank : other.isBlank = false)
    {after : List Line} {first second : Keyword} (found : line.keyword? = some first)
    (otherFound : other.keyword? = some second) (exchanges : Keyword.Exchanges after first second) :
    (∃ next, next.fence? = none ∧ step state line = .ok next ∧ step state other = .ok next) ∨
      ∃ error otherError, step state line = .error error ∧ step state other = .error otherError := by
  by_cases isOpen : state.isOpen = true
  · rcases exchanges.cases with ⟨rfl, rfl⟩ | ⟨listed, otherListed⟩
    · cases state with
      | start | docString => cases isOpen
      | feature | rule =>
          right
          exact ⟨_, _, by rw [step, stepSection, found], by rw [step, stepSection, otherFound]⟩
      | body isBackground =>
          simp only [step, stepBody, found, otherFound]
          cases isBackground
          · exact Or.inl ⟨_, rfl, rfl, rfl⟩
          · exact Or.inr ⟨_, _, rfl, rfl⟩
      | examples width? =>
          left
          exact ⟨.examples none, rfl, by rw [step, stepExamples, found],
            by rw [step, stepExamples, otherFound]⟩
    · left
      exact ⟨_, rfl, step_of_scenario isOpen found listed,
        step_of_scenario isOpen otherFound otherListed⟩
  · -- Before the feature all of these lines are refused, and no doc string is open here.
    right
    cases state with
    | start =>
        simp only [step, stepStart, notBlank, otherNotBlank, found, otherFound]
        rcases exchanges.cases with ⟨rfl, rfl⟩ | ⟨rfl | rfl, rfl | rfl⟩ <;> exact ⟨_, _, rfl, rfl⟩
    | docString => cases outside
    | _ => exact absurd rfl isOpen

/-- The automaton accepts all or none of the lines that read alike. -/
theorem run_iff_of_readAlike {open? : Option Text} {lines others : List Line}
    (alike : Line.ReadAlike open? lines others)
    (blankLines : ∀ line ∈ lines, line.isBlank = true → line.keyword? = none)
    (otherBlankLines : ∀ line ∈ others, line.isBlank = true → line.keyword? = none)
    {state twin : State} (corresponds : state.IsRelocated id twin) (inside : state.fence? = open?) :
    run state lines = .ok () ↔ run twin others = .ok () := by
  induction alike generalizing state twin with
  | nil =>
      rcases (agree_iff ..).1 (agree_finish corresponds) with
        ⟨_, _, rfl, ended, twinEnded⟩ | ⟨error, twinError, -, -, refused, twinRefused⟩
      · rw [run, run, ended, twinEnded]
      · rw [run, run, refused, twinRefused]
        simp
  | @keep open? line other rest others relocated alike inductionHypothesis =>
      obtain ⟨blankLine, later⟩ := List.forall_mem_cons.1 blankLines
      have otherLater := (List.forall_mem_cons.1 otherBlankLines).2
      rw [run, run]
      rcases (agree_iff ..).1 (agree_step relocated corresponds) with
        ⟨next, twinNext, nextCorresponds, moved, twinMoved⟩ |
        ⟨error, twinError, -, -, stopped, twinStopped⟩
      · rw [moved, twinMoved]
        have nextInside := fence?_step blankLine moved
        rw [inside] at nextInside
        exact inductionHypothesis later otherLater nextCorresponds nextInside
      · rw [stopped, twinStopped]
        simp
  | @exchange line other rest others first second found otherFound exchanges _ _ alike
      inductionHypothesis =>
      obtain ⟨blankLine, later⟩ := List.forall_mem_cons.1 blankLines
      obtain ⟨otherBlankLine, otherLater⟩ := List.forall_mem_cons.1 otherBlankLines
      have notBlank := Line.isBlank_eq_false_of_found blankLine found
      have otherNotBlank := Line.isBlank_eq_false_of_found otherBlankLine otherFound
      cases corresponds with
      | docString => cases inside
      | same outside =>
          rw [run, run]
          rcases step_of_exchanges outside notBlank otherNotBlank found otherFound exchanges with
            ⟨next, nextOutside, moved, otherMoved⟩ | ⟨error, otherError, stopped, otherStopped⟩
          · rw [moved, otherMoved]
            exact inductionHypothesis later otherLater (.same nextOutside) nextOutside
          · rw [stopped, otherStopped]
            simp

end Automaton

namespace Document

/-- A source parses to the same document when it is spelled in another way. -/
theorem parse_of_respelled {source other : Text}
    (respelled : Line.Respelled none (Line.ofSource source) (Line.ofSource other)) (path : Path)
    (document : Document) : parse path source = .ok document ↔ parse path other = .ok document := by
  have alike : Line.ReadAlike none (Line.ofSource source) (Line.ofSource other) :=
    @Line.Respelled.readAlike _ _ _ respelled source other [] [] rfl rfl rfl
  have accepts : Automaton.run .start (Line.ofSource source) = .ok () ↔
      Automaton.run .start (Line.ofSource other) = .ok () :=
    Automaton.run_iff_of_readAlike alike (fun _ => Line.keyword?_of_isBlank)
      (fun _ => Line.keyword?_of_isBlank) (.same rfl) rfl
  have forward {found : Document} (parsed : parse path source = .ok found) :
      parse path other = .ok found := by
    have moved := @parse_of_growth id source other (accepts.1 (run_of_parse parsed))
      (by rw [Branch.map_relocate_id, Above.growth_of_readAlike alike]) path found parsed
    rw [moved, relocate_id]
  constructor
  · exact forward
  · -- The source parses too, and its document is the one that the other source parses to.
    intro parsed
    obtain ⟨found, foundParsed⟩ := exists_parse_of_run (accepts.2 (run_of_parse parsed)) path
    have same := forward foundParsed
    rw [parsed] at same
    cases same
    exact foundParsed

/-- Examples are never refused below a scenario or an outline: where they are refused, the last section
above them outside doc strings is a feature, a rule or a background. And a source parses to a document
exactly when it does so with its keywords spelled in another way. -/
theorem lookahead_agrees_with_body (path : Path) (source : Text) :
    (∀ error, parse path source = .error error → error.cause = .examplesOutsideOutline →
      ∃ before line after opening, Line.ofSource source = before ++ line :: after ∧
        error.line = line.number ∧ line.keyword? = some .examples ∧
        Line.lastSection? (Line.outside none before) = some opening ∧
        opening.keyword? ∈ [some .feature, some .rule, some .background]) ∧
      ∀ other, Line.Respelled none (Line.ofSource source) (Line.ofSource other) →
        ∀ document, parse path source = .ok document ↔ parse path other = .ok document := by
  constructor
  · intro error failed cause
    rw [parse_eq_error_iff] at failed
    exact Automaton.exists_section_of_examplesOutsideOutline (fun _ => Line.keyword?_of_isBlank) failed
      cause
  · intro other respelled document
    exact parse_of_respelled respelled path document

/-- A scenario with a doc string above its examples is called an outline, and examples below a background
are refused. -/
theorem lookahead_agrees_with_body_of_outline :
    let path : Path := ⟨"a.feature".toList⟩
    let source := "Feature: F\nExample: S\n```\nRule: R\n```\nExamples:\n| a |\n".toList
    let other := "Feature: F\nScenario Template: S\n```\nRule: R\n```\nScenarios:\n| a |\n".toList
    let bad := "Feature: F\nBackground:\nExamples:\n".toList
    Line.Respelled none (Line.ofSource source) (Line.ofSource other) ∧
      (∃ document, parse path source = .ok document ∧ parse path other = .ok document ∧
        document.is 2 .outline = true) ∧
      parse path bad = .error ⟨.examplesOutsideOutline, 3, ⟨23, 32⟩⟩ ∧
      ∃ before line after opening, Line.ofSource bad = before ++ line :: after ∧
        3 = line.number ∧ line.keyword? = some .examples ∧
        Line.lastSection? (Line.outside none before) = some opening ∧
        opening.keyword? ∈ [some .feature, some .rule, some .background] := by
  intro path source other bad
  have lines : Line.ofSource source = [Line.read 1 0 "Feature: F".toList,
      Line.read 2 11 "Example: S".toList, Line.read 3 22 "```".toList, Line.read 4 26 "Rule: R".toList,
      Line.read 5 34 "```".toList, Line.read 6 38 "Examples:".toList,
      Line.read 7 48 "| a |".toList] := by
    decide +kernel
  have otherLines : Line.ofSource other = [Line.read 1 0 "Feature: F".toList,
      Line.read 2 11 "Scenario Template: S".toList, Line.read 3 32 "```".toList,
      Line.read 4 36 "Rule: R".toList, Line.read 5 44 "```".toList, Line.read 6 48 "Scenarios:".toList,
      Line.read 7 59 "| a |".toList] := by
    decide +kernel
  have respelled : Line.Respelled none (Line.ofSource source) (Line.ofSource other) := by
    rw [lines, otherLines]
    refine .keep rfl (@Line.Respelled.exchange _ _ _ _ ("Example:".toList, .scenario)
      ("Scenario Template:".toList, .outline) " S".toList (by decide) (by decide) (Or.inr (by decide))
      rfl rfl (.keep rfl (.keep rfl (.keep rfl ?_))))
    exact @Line.Respelled.exchange _ _ _ _ ("Examples:".toList, .examples)
      ("Scenarios:".toList, .examples) [] (by decide) (by decide) (Or.inl (by decide)) rfl rfl
      (.keep rfl .nil)
  have parsed : parse path source = .ok (ofFeature path (some ⟨1, "F".toList,
      [⟨2, "S".toList, .outline [⟨6, [], [⟨7, ["a".toList]⟩]⟩]⟩], []⟩)) := by
    with_unfolding_all rfl
  have failed : parse path bad = .error ⟨.examplesOutsideOutline, 3, ⟨23, 32⟩⟩ := by
    with_unfolding_all rfl
  have otherParsed := ((lookahead_agrees_with_body path source).2 other respelled _).1 parsed
  exact ⟨respelled, ⟨_, parsed, otherParsed, by decide⟩, failed,
    (lookahead_agrees_with_body path bad).1 _ failed rfl⟩

end Document

end FeatureLint
