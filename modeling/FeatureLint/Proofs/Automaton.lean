import FeatureLint.Proofs.Remainder

/-!
This file reads the lines of a feature file with an automaton that sees each line once and never looks
ahead. Its states say what the last structural line was. Main statement: the automaton accepts exactly
the texts that parse, and on every other text it stops with the error of the parser.
-/

namespace FeatureLint.Automaton

inductive State where
  | start
  | feature
  | rule
  /-- The body of a background may not hold examples. -/
  | body (isBackground : Bool)
  /-- The first row of a table fixes its width. -/
  | examples (width? : Option Nat)
  /-- A doc string goes back to the body that it interrupts. -/
  | docString (fence : Text) (opening : Line) (isBackground : Bool)
deriving DecidableEq, Repr

/-- This is what an error says was found in place of what was expected. -/
def foundOn (line : Line) : Text :=
  match line.keyword? with
  | none => "text `".toList ++ line.content ++ "`".toList
  | some .feature => "`Feature:`".toList
  | some .rule => "`Rule:`".toList
  | some .background => "`Background:`".toList
  | some .scenario => "`Scenario:`".toList
  | some .outline => "`Scenario Outline:`".toList
  | some .examples => "`Examples:`".toList
  | some .step => "step".toList
  | some .row => "table row".toList
  | some .tag => "tag".toList
  | some .comment => "comment".toList
  | some .fence => "doc string".toList

/-- Headings mean the same in every state after the first feature, and other lines change nothing. -/
def stepHeading (state : State) (line : Line) : Except ParseError State :=
  match line.keyword? with
  | some .feature => .error ⟨.duplicateFeature, line.number, line.span⟩
  | some .rule => .ok .rule
  | some .background => .ok (.body true)
  | some .scenario | some .outline => .ok (.body false)
  | _ => .ok state

/-- Before the feature there are only blank lines, comments and tags. -/
def stepStart (line : Line) : Except ParseError State :=
  if line.isBlank then .ok .start
  else
    match line.keyword? with
    | some .comment | some .tag => .ok .start
    | some .feature => .ok .feature
    | _ => .error ⟨.unexpectedLine "`Feature:`".toList (foundOn line), line.number, line.span⟩

/-- Right below a feature or a rule only headings may follow. -/
def stepSection (state : State) (expected : Text) (line : Line) : Except ParseError State :=
  match line.keyword? with
  | some .step | some .row | some .fence =>
      .error ⟨.unexpectedLine expected (foundOn line), line.number, line.span⟩
  | some .examples => .error ⟨.examplesOutsideOutline, line.number, line.span⟩
  | _ => stepHeading state line

def stepBody (isBackground : Bool) (line : Line) : Except ParseError State :=
  match line.keyword? with
  | some .step | some .row => .ok (.body isBackground)
  | some .fence => .ok (.docString (line.content.take 3) line isBackground)
  | some .examples =>
      if isBackground then .error ⟨.examplesOutsideOutline, line.number, line.span⟩
      else .ok (.examples none)
  | _ => stepHeading (.body isBackground) line

def stepRow (width? : Option Nat) (line : Line) : Except ParseError State :=
  let found := (Row.cellsOf line.content).length
  match width? with
  | none => .ok (.examples (some found))
  | some width =>
      if found = width then .ok (.examples (some width))
      else .error ⟨.misalignedRow width found, line.number, line.span⟩

def stepExamples (width? : Option Nat) (line : Line) : Except ParseError State :=
  match line.keyword? with
  | some .row => stepRow width? line
  | some .step | some .fence =>
      .error ⟨.unexpectedLine "an examples table row".toList (foundOn line), line.number, line.span⟩
  | some .examples => .ok (.examples none)
  | _ => stepHeading (.examples width?) line

/-- This function makes one step of the automaton. -/
def step : State → Line → Except ParseError State
  | .start, line => stepStart line
  | .feature, line => stepSection .feature "a scenario, rule or background".toList line
  | .rule, line => stepSection .rule "a scenario or background".toList line
  | .body isBackground, line => stepBody isBackground line
  | .examples width?, line => stepExamples width? line
  | .docString fence opening isBackground, line =>
      if Text.startsWith line.content fence then .ok (.body isBackground)
      else .ok (.docString fence opening isBackground)

/-- The end of the text is fine in every state but in a doc string. -/
def finish : State → Except ParseError Unit
  | .docString _ opening _ => .error ⟨.unterminatedDocString, opening.number, opening.span⟩
  | _ => .ok ()

/-- This function runs the automaton over the lines of a text. -/
def run : State → List Line → Except ParseError Unit
  | state, [] => finish state
  | state, line :: rest =>
      match step state line with
      | .error error => .error error
      | .ok next => run next rest

/-- The parser speaks of an unexpected line as the automaton does. -/
theorem unexpected_eq (line : Line) (expected : Text) :
    ParseError.unexpected line expected =
      ⟨.unexpectedLine expected (foundOn line), line.number, line.span⟩ := by
  unfold ParseError.unexpected foundOn
  cases line.keyword? with
  | none => rfl
  | some keyword => cases keyword <;> rfl

/-- These states treat all headings alike. -/
def State.isOpen : State → Bool
  | .start | .docString _ _ _ => false
  | _ => true

/-- In every open state a heading leads where it leads right below a feature. -/
theorem step_of_opensSection {state : State} (isOpen : state.isOpen = true) {line : Line}
    (heading : line.opensSection = true) : step state line = step .feature line := by
  obtain ⟨keyword, found, opens⟩ := Line.exists_keyword_of_opensSection heading
  cases state <;> first | contradiction | skip
  all_goals
    cases keyword <;> first | contradiction | skip
  all_goals
    simp [step, stepSection, stepBody, stepExamples, stepHeading, found]

/-- At a heading the automaton forgets what it was in. -/
theorem run_of_startsSection (state : State) (isOpen : state.isOpen = true) {lines : List Line}
    (heading : StartsSection lines) : run state lines = run .feature lines := by
  cases lines with
  | nil => cases state <;> first | contradiction | rfl
  | cons line rest => rw [run, run, step_of_opensSection isOpen (heading line rest rfl)]

/-- A line that is no heading changes nothing. -/
theorem stepHeading_of_not_opensSection (state : State) {line : Line}
    (other : ¬ line.opensSection = true) : stepHeading state line = .ok state := by
  unfold stepHeading
  split
  case h_6 => rfl
  all_goals
    next found =>
      simp [Line.opensSection, Keyword.opensSection, Keyword.opensBlock, found] at other

/-- The first row of a table fits itself. -/
theorem stepRow_eq (width? : Option Nat) (line : Line) :
    stepRow width? line =
      if (Row.cellsOf line.content).length = width?.getD (Row.cellsOf line.content).length then
        .ok (.examples (some (width?.getD (Row.cellsOf line.content).length)))
      else .error ⟨.misalignedRow (width?.getD (Row.cellsOf line.content).length)
        (Row.cellsOf line.content).length, line.number, line.span⟩ := by
  cases width? <;> simp [stepRow]

/-- A row that fits fixes the width of its table. -/
theorem run_examples_of_fits {width? : Option Nat} {line : Line} (rest : List Line)
    (isRow : line.keyword? = some .row)
    (fits : (Row.cellsOf line.content).length =
      width?.getD (Row.cellsOf line.content).length) :
    run (.examples width?) (line :: rest) =
      run (.examples (some (width?.getD (Row.cellsOf line.content).length))) rest := by
  rw [run, step, stepExamples, isRow]
  simp only [stepRow_eq]
  rw [if_pos fits]

/-- The automaton goes through a table like the reader of its rows. -/
theorem run_examples (width? : Option Nat) (lines : List Line) :
    run (.examples width?) lines =
      (Examples.readRows width? lines).bind fun read => run (.body false) read.2 := by
  fun_induction Examples.readRows width? lines with
  | case1 => rfl
  | case2 width? line rest isRow row width fits error read inductionHypothesis =>
      rw [read] at inductionHypothesis
      rw [run_examples_of_fits rest isRow fits]
      exact inductionHypothesis
  | case3 width? line rest isRow row width fits rows after read inductionHypothesis =>
      rw [read] at inductionHypothesis
      rw [run_examples_of_fits rest isRow fits]
      exact inductionHypothesis
  | case4 width? line rest isRow row width misfits =>
      rw [run, step, stepExamples, isRow]
      simp only [stepRow_eq]
      rw [if_neg misfits]
      rfl
  | case5 width? line rest isStep =>
      simp [run, step, stepExamples, isStep, unexpected_eq, Except.bind]
  | case6 width? line rest isFence =>
      simp [run, step, stepExamples, isFence, unexpected_eq, Except.bind]
  | case7 width? line rest isExamples =>
      simp [run, step, stepExamples, stepBody, isExamples, Except.bind]
  | case8 width? line rest heading =>
      have starts := startsSection_of_opensSection rest heading
      rw [run_of_startsSection (.examples width?) rfl starts]
      exact (run_of_startsSection (.body false) rfl starts).symm
  | case9 width? line rest other notRow notStep notFence notExamples inductionHypothesis =>
      have stays : stepExamples width? line = .ok (.examples width?) := by
        unfold stepExamples
        split
        case h_5 => exact stepHeading_of_not_opensSection _ other
        all_goals contradiction
      rw [run, step, stays]
      exact inductionHypothesis

/-- The automaton leaves a doc string where its lines have been skipped. -/
theorem run_docString (fence : Text) (opening : Line) (isBackground : Bool) (lines : List Line) :
    run (.docString fence opening isBackground) lines =
      match Block.skipDocString? fence lines with
      | none => .error (.onLine opening .unterminatedDocString)
      | some after => run (.body isBackground) after := by
  fun_induction Block.skipDocString? fence lines with
  | case1 => rfl
  | case2 line rest closes => simp [run, step, closes]
  | case3 line rest continues inductionHypothesis =>
      simpa [run, step, continues] using inductionHypothesis

/-- Looking ahead skips doc strings like the reader of a body. -/
theorem hasExamples_some (fence : Text) (lines : List Line) :
    Block.hasExamples (some fence) lines =
      match Block.skipDocString? fence lines with
      | none => false
      | some after => Block.hasExamples none after := by
  fun_induction Block.skipDocString? fence lines with
  | case1 => rfl
  | case2 line rest closes => simp [Block.hasExamples, closes]
  | case3 line rest continues inductionHypothesis =>
      simpa [Block.hasExamples, continues] using inductionHypothesis

/-- Looking ahead passes over a line that is neither a fence nor a heading. -/
theorem hasExamples_of_other {line : Line} (rest : List Line)
    (notFence : line.keyword? ≠ some .fence) (notExamples : line.keyword? ≠ some .examples)
    (other : ¬ line.opensSection = true) :
    Block.hasExamples none (line :: rest) = Block.hasExamples none rest := by
  cases found : line.keyword? with
  | none => simp [Block.hasExamples, found, other]
  | some keyword =>
      rw [found] at notFence notExamples
      cases keyword <;> first | contradiction | simp [Block.hasExamples, found, other]

/-- Examples in a body are gone through like a table, and then the body goes on. -/
theorem run_body_of_examples {line : Line} (rest : List Line)
    (isExamples : line.keyword? = some .examples) :
    run (.body false) (line :: rest) =
      (Examples.readRows none rest).bind fun read => run (.body false) read.2 := by
  simp [run, step, stepBody, isExamples, run_examples]

/-- The automaton goes through a body like its reader. The reader knows beforehand whether the body
may hold examples, and where it may not although it is no background, no examples follow. -/
theorem run_body {isOutline isBackground : Bool} (lines : List Line)
    (outline : isOutline = true → isBackground = false)
    (plain : isOutline = false → isBackground = true ∨ Block.hasExamples none lines = false) :
    run (.body isBackground) lines =
      (Block.readBody isOutline lines).bind fun read => run .feature read.2 := by
  fun_induction Block.readBody isOutline lines with
  | case1 => rfl
  | case2 line rest isFence unclosed =>
      rw [run, step, stepBody, isFence]
      simp only [run_docString]
      rw [← Block.fenceOf, unclosed]
      rfl
  | case3 line rest isFence after skipped inductionHypothesis =>
      rw [run, step, stepBody, isFence]
      simp only [run_docString]
      rw [← Block.fenceOf, skipped]
      refine inductionHypothesis fun isPlain => (plain isPlain).imp_right fun missing => ?_
      simpa [Block.hasExamples, isFence, hasExamples_some, skipped] using missing
  | case4 line rest isExamples allowed error rowsRead =>
      rw [outline allowed, run_body_of_examples rest isExamples, rowsRead]
      rfl
  | case5 line rest isExamples allowed rows after rowsRead error bodyRead inductionHypothesis =>
      have later := inductionHypothesis fun isPlain => by simp [allowed] at isPlain
      rw [bodyRead, outline allowed] at later
      rw [outline allowed, run_body_of_examples rest isExamples, rowsRead]
      exact later
  | case6 line rest isExamples allowed rows after rowsRead tables last bodyRead
      inductionHypothesis =>
      have later := inductionHypothesis fun isPlain => by simp [allowed] at isPlain
      rw [bodyRead, outline allowed] at later
      rw [outline allowed, run_body_of_examples rest isExamples, rowsRead]
      exact later
  | case7 line rest isExamples isPlain =>
      have onlyBackground := (plain (by simpa using isPlain)).resolve_right
        (by simp [Block.hasExamples, isExamples])
      simp [run, step, stepBody, isExamples, onlyBackground, ParseError.onLine, Except.bind]
  | case8 line rest heading notFence notExamples =>
      exact run_of_startsSection _ rfl (startsSection_of_opensSection rest heading)
  | case9 line rest other notFence notExamples inductionHypothesis =>
      have stays : stepBody isBackground line = .ok (.body isBackground) := by
        unfold stepBody
        split
        case h_5 => exact stepHeading_of_not_opensSection _ other
        all_goals first | rfl | contradiction
      rw [run, step, stays]
      refine inductionHypothesis fun isPlain => (plain isPlain).imp_right fun missing => ?_
      exact hasExamples_of_other rest notFence notExamples other ▸ missing

/-- The automaton goes through a block like its reader. -/
theorem run_read (state : State) (isOpen : state.isOpen = true) {line : Line} (rest : List Line)
    (opens : line.opensBlock = true) :
    run state (line :: rest) = (Block.read line rest).bind fun read => run .feature read.2 := by
  obtain ⟨keyword, found, isBlock⟩ := Line.exists_keyword_of_opensBlock opens
  have heading := Line.opensSection_of_opensBlock opens
  have body : run (.body (decide (keyword = .background))) rest =
      (Block.readBody (Block.isOutline line rest) rest).bind fun read => run .feature read.2 := by
    apply run_body
    · intro outline
      cases keyword <;> first | contradiction | simp_all [Block.isOutline]
    · intro plain
      cases keyword <;> first | contradiction | simp_all [Block.isOutline]
  have entered : run state (line :: rest) = run (.body (decide (keyword = .background))) rest := by
    rw [run, step_of_opensSection isOpen heading]
    cases keyword <;> first | contradiction | simp [step, stepSection, stepHeading, found]
  rw [entered, body, Block.read]
  cases Block.readBody (Block.isOutline line rest) rest <;> rfl

/-- After a block the automaton goes on as if the block had not been there. -/
theorem run_of_read {state : State} (isOpen : state.isOpen = true) {line : Line}
    {rest after : List Line} {block : Block} (opens : line.opensBlock = true)
    (read : Block.read line rest = .ok (block, after)) :
    run state (line :: rest) = run state after := by
  rw [run_read state isOpen rest opens, read,
    run_of_startsSection state isOpen (startsSection_of_read read)]
  rfl

/-- The automaton goes through the blocks of a section like their reader. -/
theorem run_readAll {state : State} {expected : Text} (isOpen : state.isOpen = true)
    (steps : ∀ line, step state line = stepSection state expected line) (lines : List Line) :
    run state lines =
      (Block.readAll expected lines).bind fun read => run .feature read.2 := by
  fun_induction Block.readAll expected lines with
  | case1 => cases state <;> first | contradiction | rfl
  | case2 line rest isRule =>
      have heading : line.opensSection = true := by
        simp [Line.opensSection, isRule, Keyword.opensSection]
      exact run_of_startsSection state isOpen (startsSection_of_opensSection rest heading)
  | case3 line rest isFeature =>
      have heading : line.opensSection = true := by
        simp [Line.opensSection, isFeature, Keyword.opensSection]
      exact run_of_startsSection state isOpen (startsSection_of_opensSection rest heading)
  | case4 line rest isExamples =>
      simp [run, steps, stepSection, isExamples, ParseError.onLine, Except.bind]
  | case5 line rest isStep => simp [run, steps, stepSection, isStep, unexpected_eq, Except.bind]
  | case6 line rest isRow => simp [run, steps, stepSection, isRow, unexpected_eq, Except.bind]
  | case7 line rest isFence => simp [run, steps, stepSection, isFence, unexpected_eq, Except.bind]
  | case8 line rest opens error blockRead =>
      rw [run_read state isOpen rest opens, blockRead]
      rfl
  | case9 line rest opens block after blockRead error othersRead _ _ _ _ _ _ inductionHypothesis =>
      rw [othersRead] at inductionHypothesis
      rw [run_of_read isOpen opens blockRead]
      exact inductionHypothesis
  | case10 line rest opens block after blockRead others last othersRead _ _ _ _ _ _
      inductionHypothesis =>
      rw [othersRead] at inductionHypothesis
      rw [run_of_read isOpen opens blockRead]
      exact inductionHypothesis
  | case11 line rest other notRule notFeature notExamples notStep notRow notFence
      inductionHypothesis =>
      have stays : stepSection state expected line = .ok state := by
        unfold stepSection
        cases found : line.keyword? with
        | none => simp [stepHeading, found]
        | some keyword => cases keyword <;> simp_all [stepHeading, Line.opensBlock, Keyword.opensBlock]
      rw [run, steps, stays]
      exact inductionHypothesis

/-- Right below the feature stand its own blocks. -/
theorem run_feature (lines : List Line) :
    run .feature lines = (Block.readAll "a scenario, rule or background".toList lines).bind
      fun read => run .feature read.2 :=
  run_readAll rfl (fun _ => rfl) lines

/-- Right below a rule stand its blocks. -/
theorem run_rule (lines : List Line) :
    run .rule lines = (Block.readAll "a scenario or background".toList lines).bind
      fun read => run .feature read.2 :=
  run_readAll rfl (fun _ => rfl) lines

/-- After the rules of a feature the text is over, or a second feature follows. -/
def finishRules : List Line → Except ParseError Unit
  | [] => .ok ()
  | second :: _ => .error (.onLine second .duplicateFeature)

/-- A rule ends whatever stands before it. -/
theorem run_feature_of_rule {line : Line} (rest : List Line) (isRule : line.keyword? = some .rule) :
    run .feature (line :: rest) = run .rule rest := by
  simp [run, step, stepSection, stepHeading, isRule]

/-- The automaton goes through the rules of a feature like their reader. -/
theorem run_readRules {lines : List Line} (starts : StartsRuleOrFeature lines) :
    run .feature lines = (Rule.readAll lines).bind fun read => finishRules read.2 := by
  fun_induction Rule.readAll lines with
  | case1 => rfl
  | case2 line rest isRule error blocksRead =>
      rw [run_feature_of_rule rest isRule, run_rule, blocksRead]
      rfl
  | case3 line rest isRule blocks after blocksRead error rulesRead inductionHypothesis =>
      rw [rulesRead] at inductionHypothesis
      rw [run_feature_of_rule rest isRule, run_rule, blocksRead]
      exact inductionHypothesis (startsRuleOrFeature_of_readAll blocksRead)
  | case4 line rest isRule blocks after blocksRead rules last rulesRead inductionHypothesis =>
      rw [rulesRead] at inductionHypothesis
      rw [run_feature_of_rule rest isRule, run_rule, blocksRead]
      exact inductionHypothesis (startsRuleOrFeature_of_readAll blocksRead)
  | case5 line rest notRule =>
      have isFeature := (starts line rest rfl).resolve_left notRule
      simp [run, step, stepSection, stepHeading, isFeature, finishRules, ParseError.onLine, Except.bind]

/-- The automaton stays at the start as long as the lines may stand before the feature. -/
theorem run_start_dropWhile (lines : List Line) :
    run .start lines = run .start (lines.dropWhile Feature.isPreamble) := by
  induction lines with
  | nil => rfl
  | cons line rest inductionHypothesis =>
      cases preamble : Feature.isPreamble line with
      | false => rw [List.dropWhile_cons_of_neg (by simp [preamble])]
      | true =>
          have stays : stepStart line = .ok .start := by
            unfold Feature.isPreamble at preamble
            unfold stepStart
            split
            · rfl
            · next notBlank =>
                simp only [notBlank, Bool.or_eq_true, decide_eq_true_eq] at preamble
                rcases preamble with (impossible | found) | found
                · contradiction
                · simp [found]
                · simp [found]
          rw [List.dropWhile_cons_of_pos preamble, run, step, stays]
          exact inductionHypothesis

/-- The automaton and the reader of a file stop with the same error, or both accept. -/
theorem run_start (lines : List Line) :
    run .start lines = (Feature.ofLines lines).map fun _ => () := by
  rw [run_start_dropWhile, Feature.ofLines]
  cases left : lines.dropWhile Feature.isPreamble with
  | nil => rfl
  | cons line rest =>
      have late : Feature.isPreamble line = false := by
        have head := List.head?_dropWhile_not Feature.isPreamble lines
        rwa [left] at head
      simp only [Feature.isPreamble, Bool.or_eq_false_iff, decide_eq_false_iff_not] at late
      obtain ⟨⟨notBlank, notComment⟩, notTag⟩ := late
      by_cases isFeature : line.keyword? = some .feature
      · have entered : run .start (line :: rest) = run .feature rest := by
          simp [run, step, stepStart, notBlank, isFeature]
        rw [entered, run_feature]
        simp only [if_pos isFeature, Feature.read]
        cases blocksRead : Block.readAll "a scenario, rule or background".toList rest with
        | error error => rfl
        | ok read =>
            obtain ⟨blocks, after⟩ := read
            have rules := run_readRules (startsRuleOrFeature_of_readAll blocksRead)
            simp only [Except.bind, rules]
            cases Rule.readAll after with
            | error error => rfl
            | ok read =>
                obtain ⟨rules, last⟩ := read
                cases last <;> rfl
      · have refused : stepStart line =
            .error (.unexpected line Keyword.feature.description) := by
          unfold stepStart
          rw [if_neg (by simp [notBlank]), unexpected_eq]
          split <;> first | contradiction | rfl
        rw [run, step, refused]
        simp only [if_neg isFeature]
        rfl

/-- A text parses exactly when the automaton accepts its lines, and otherwise the parser reports the
error with which the automaton stops. -/
theorem parse_eq_run (path : Path) (source : Text) :
    ((Document.parse path source).map fun _ => ()) = run .start (Line.ofSource source) := by
  rw [run_start, Document.parse]
  cases Feature.ofLines (Line.ofSource source) <;> rfl

/-- Each state that expects something says what it is, and each of the other errors has its own line and
its own bytes. A doc string may hold anything, and examples may follow it. -/
theorem parse_eq_run_for_each_cause :
    let path : Path := ⟨"a.feature".toList⟩
    let Stops (source : String) (cause : ParseError.Cause) (line : Nat) (span : Span) : Prop :=
      run .start (Line.ofSource source.toList) = .error ⟨cause, line, span⟩ ∧
        ((Document.parse path source.toList).map fun _ => ()) = .error ⟨cause, line, span⟩
    let accepted := "Feature: F\nScenario: S\n\"\"\"\nRule: R\n\"\"\"\nExamples:\n| a |\nRule: R\n".toList
    Stops "@tag\n\n  free text\nFeature: F\n"
      (.unexpectedLine "`Feature:`".toList "text `free text`".toList) 3 ⟨8, 17⟩ ∧
    Stops "Feature: F\n  Given é\n"
      (.unexpectedLine "a scenario, rule or background".toList "step".toList) 2 ⟨13, 21⟩ ∧
    Stops "Feature: F\nRule: R\n\t| é |\n"
      (.unexpectedLine "a scenario or background".toList "table row".toList) 3 ⟨20, 26⟩ ∧
    Stops "Feature: F\nScenario: S\nExamples:\n  ```\n"
      (.unexpectedLine "an examples table row".toList "doc string".toList) 4 ⟨35, 38⟩ ∧
    Stops "# first\nFeature: F\nScenario: S\n  Given a\n Feature: G\n" .duplicateFeature 5 ⟨42, 52⟩ ∧
    Stops "Feature: F\nBackground:\n  Given a\n  Examples:\n" .examplesOutsideOutline 4 ⟨35, 44⟩ ∧
    Stops "Feature: F\nScenario: S\nExamples:\n| a | b |\n  | é |\n" (.misalignedRow 2 1) 5 ⟨45, 51⟩ ∧
    Stops "Feature: F\nScenario: S\n  \"\"\"\nFeature: G\n```\n" .unterminatedDocString 3 ⟨25, 28⟩ ∧
    run .start (Line.ofSource accepted) = .ok () ∧
    ((Document.parse path accepted).map fun _ => ()) = .ok () := by
  intro path Stops accepted
  have stops {source : String} {cause : ParseError.Cause} {line : Nat} {span : Span}
      (stopped : run .start (Line.ofSource source.toList) = .error ⟨cause, line, span⟩) :
      Stops source cause line span :=
    ⟨stopped, (parse_eq_run path source.toList).trans stopped⟩
  have accepts : run .start (Line.ofSource accepted) = .ok () := by with_unfolding_all rfl
  refine ⟨stops ?_, stops ?_, stops ?_, stops ?_, stops ?_, stops ?_, stops ?_, stops ?_, accepts,
    (parse_eq_run path accepted).trans accepts⟩
  all_goals with_unfolding_all rfl

end FeatureLint.Automaton
