import FeatureLint.Proofs.Placement
import FeatureLint.Proofs.Proper

/-!
This file prints documents. Each node but the root and the cells is written on its own line, the cells
are written with their row, and the lines between are blank. Main statements: reading the cells of a
row that was written gives the cells back, and the lines of a document that was printed show its
entries, one after the other, with blank lines between them.
-/

namespace FeatureLint

namespace Row

/-- A backslash, a bar and a newline get a backslash in front. -/
def escape (value : Text) : Text :=
  value.flatMap fun character =>
    if character = '\\' then ['\\', '\\']
    else if character = '|' then ['\\', '|']
    else if character = '\n' then ['\\', 'n']
    else [character]

/-- A bar opens the row, and a bar closes each cell. -/
def write (cells : List Text) : Text :=
  '|' :: cells.flatMap fun cell => escape cell ++ ['|']

/-- The reader of a row puts an escaped value into its cell without the escapes. -/
theorem cellsFrom_escape (opened : Bool) (cell value rest : Text) :
    cellsFrom opened cell (escape value ++ rest) = cellsFrom opened (value.reverse ++ cell) rest := by
  induction value generalizing cell with
  | nil => rfl
  | cons character value inductionHypothesis =>
      have step : cellsFrom opened cell (escape (character :: value) ++ rest) =
          cellsFrom opened (character :: cell) (escape value ++ rest) := by
        rw [escape, List.flatMap_cons, ← escape]
        split
        · next isBackslash => simp [isBackslash, cellsFrom]
        · split
          · next isBar => simp [isBar, cellsFrom]
          · split
            · next isNewline => simp [isNewline, cellsFrom]
            · next notBackslash notBar notNewline =>
                simp [cellsFrom, notBackslash]
      rw [step, inductionHypothesis, List.reverse_cons, List.append_assoc, List.singleton_append]

/-- Reading trims the cells that were written. -/
theorem cellsOf_write (cells : List Text) : cellsOf (write cells) = cells.map Text.trim := by
  have opened : cellsOf (write cells) =
      cellsFrom true [] (cells.flatMap fun cell => escape cell ++ ['|']) := by
    simp [cellsOf, write, cellsFrom]
  rw [opened]
  clear opened
  induction cells with
  | nil => rfl
  | cons cell rest inductionHypothesis =>
      rw [List.flatMap_cons, List.append_assoc, cellsFrom_escape, List.singleton_append, cellsFrom,
        if_pos rfl, List.append_nil, List.reverse_reverse, inductionHypothesis, List.map_cons]

/-- Trimmed cells are read back. -/
theorem cellsOf_write_of_trimmed {cells : List Text}
    (trimmed : ∀ cell ∈ cells, Text.trim cell = cell) : cellsOf (write cells) = cells := by
  rw [cellsOf_write, List.map_congr_left trimmed, List.map_id']

/-- An escaped value stands on one line. -/
theorem newline_not_mem_escape (value : Text) : '\n' ∉ escape value := by
  intro member
  obtain ⟨character, -, inside⟩ := List.mem_flatMap.1 member
  grind

theorem newline_not_mem_write (cells : List Text) : '\n' ∉ write cells := by
  simp [write, newline_not_mem_escape]

/-- A row starts and ends with a bar. -/
theorem trim_write (cells : List Text) : Text.trim (write cells) = write cells := by
  have closed : (write cells).getLast? = some '|' := by
    rcases List.eq_nil_or_concat cells with rfl | ⟨front, last, rfl⟩
    · rfl
    · rw [write, List.concat_eq_append, List.flatMap_append, List.flatMap_singleton,
        ← List.append_assoc, ← List.cons_append, List.getLast?_concat]
  refine (Text.trim_eq_self_iff _).2 ⟨?_, ?_⟩
  · intro character same
    cases same
    rfl
  · rw [closed]
    intro character same
    cases same
    rfl

end Row

/-- This is what is written on the line of a node with the given kind and the given cells. -/
def Kind.write (cells : List Text) : Kind → Text
  | .feature name => "Feature: ".toList ++ name
  | .rule name => "Rule: ".toList ++ name
  | .background name => "Background: ".toList ++ name
  | .scenario name => "Scenario: ".toList ++ name
  | .outline name => "Scenario Outline: ".toList ++ name
  | .examples name => "Examples: ".toList ++ name
  | .row => Row.write cells
  | .file _ | .cell _ => []

/-- Every kind is written on one line when its name stands on one. -/
theorem Kind.newline_not_mem_write {kind : Kind} (cells : List Text)
    (bare : ∀ name, kind.name? = some name → '\n' ∉ name) : '\n' ∉ kind.write cells := by
  cases kind with
  | row => exact Row.newline_not_mem_write cells
  | file | cell => exact List.not_mem_nil
  | feature name | rule name | background name | scenario name | outline name | examples name =>
      intro member
      rcases List.mem_append.1 member with inLead | inName
      · exact absurd inLead (by decide)
      · exact bare name rfl inName

/-- This function puts each text on the line with its number, from the line `next` on, and leaves the
lines between blank. -/
def Text.placeLines : (next : Nat) → List (Nat × Text) → Text
  | _, [] => []
  | next, (number, text) :: rest =>
      List.replicate (number - next) '\n' ++ (text ++ '\n' :: placeLines (number + 1) rest)

namespace Document

/-- An entry is the line of a node with what is written there. -/
def written? (document : Document) (number : Nat) : Option (Nat × Text) :=
  (document.node? number).map fun node => (node.line, node.kind.write (document.cells number))

def entries (document : Document) : List (Nat × Text) :=
  (document.walk.filter document.comesFromLine).filterMap document.written?

/-- This is the source text of a document. -/
def render (document : Document) : Text :=
  Text.placeLines 1 document.entries

end Document

def Row.entry (row : Row) : Nat × Text :=
  (row.line, Row.write row.cells)

def Examples.entries (examples : Examples) : List (Nat × Text) :=
  (examples.line, (Kind.examples examples.name).write []) :: examples.rows.map Row.entry

def Block.entries (block : Block) : List (Nat × Text) :=
  (block.line, (block.form.kind block.name).write []) :: block.form.tables.flatMap Examples.entries

def Rule.entries (rule : Rule) : List (Nat × Text) :=
  (rule.line, (Kind.rule rule.name).write []) :: rule.blocks.flatMap Block.entries

def Feature.entries (feature : Feature) : List (Nat × Text) :=
  (feature.line, (Kind.feature feature.name).write []) ::
    (feature.blocks.flatMap Block.entries ++ feature.rules.flatMap Rule.entries)

/-- A text with a newline behind it is the first line of what is made of it. -/
theorem Text.firstLine_append_newline {text : Text} (bare : '\n' ∉ text) (rest : Text) :
    firstLine (text ++ '\n' :: rest) = text ++ ['\n'] ∧
      afterFirstLine (text ++ '\n' :: rest) = rest := by
  induction text with
  | nil => exact ⟨rfl, rfl⟩
  | cons character text inductionHypothesis =>
      rw [List.mem_cons, not_or] at bare
      simpa [firstLine, afterFirstLine, Ne.symm bare.1] using inductionHypothesis bare.2

namespace Line

/-- A line shows a text when it is classified by what trimming leaves of the text. -/
def Shows (line : Line) (number : Nat) (text : Text) : Prop :=
  ∃ span, line = ofContent number (Text.trim text) span

def IsGap (line : Line) : Prop :=
  line.isBlank = true ∧ line.keyword? = none

/-- A line that shows nothing is a gap. -/
theorem Shows.isGap {line : Line} {number : Nat} (shows : line.Shows number []) : line.IsGap := by
  obtain ⟨span, rfl⟩ := shows
  exact ⟨rfl, rfl⟩

/-- The lines show the entries, each followed by a gap. -/
inductive Shown : List (Nat × Text) → List Line → Prop where
  | nil : Shown [] []
  | cons {number : Nat} {text : Text} {entries : List (Nat × Text)} {line : Line}
      {gap rest : List Line} :
      line.Shows number text → (∀ between ∈ gap, between.IsGap) → Shown entries rest →
      Shown ((number, text) :: entries) (line :: (gap ++ rest))

end Line

namespace LineReader

/-- A text with a newline behind it is read as a line that shows it. -/
theorem exists_lines_cons {text : Text} (bare : '\n' ∉ text) (rest : Text) (offset number : Nat) :
    ∃ line later, line.Shows (number + 1) text ∧
      lines ⟨text ++ '\n' :: rest, offset, number⟩ = line :: lines ⟨rest, later, number + 1⟩ := by
  obtain ⟨first, after⟩ := Text.firstLine_append_newline bare rest
  have trimmed : Text.trim (text ++ ['\n']) = Text.trim text :=
    Text.trim_append_of_blank (List.forall_mem_nil _)
      (List.forall_mem_singleton.2 Text.isBlank_newline) text
  rw [lines_of_ne_nil (by simp), first, after]
  refine ⟨_, _, ?_, rfl⟩
  rw [Line.read_eq_ofContent, trimmed]
  exact ⟨_, rfl⟩

/-- Newlines in front of a text are read as gaps. -/
theorem exists_lines_replicate (count : Nat) (rest : Text) (offset number : Nat) :
    ∃ gap later, (∀ line ∈ gap, line.IsGap) ∧
      lines ⟨List.replicate count '\n' ++ rest, offset, number⟩ =
        gap ++ lines ⟨rest, later, number + count⟩ := by
  induction count generalizing offset number with
  | zero => exact ⟨[], offset, List.forall_mem_nil _, rfl⟩
  | succ count inductionHypothesis =>
      obtain ⟨line, next, shows, first⟩ := exists_lines_cons List.not_mem_nil
        (List.replicate count '\n' ++ rest) offset number
      obtain ⟨gap, later, blank, others⟩ := inductionHypothesis next (number + 1)
      refine ⟨line :: gap, later, List.forall_mem_cons.2 ⟨shows.isGap, blank⟩, ?_⟩
      rw [List.replicate_succ, List.cons_append]
      rw [show number + (count + 1) = number + 1 + count by omega, List.cons_append, ← others, ← first]
      rfl

/-- The lines of texts that were placed show these texts. -/
theorem exists_shown {entries : List (Nat × Text)} {number : Nat}
    (ordered : (entries.map Prod.fst).Pairwise (· < ·))
    (later : ∀ entry ∈ entries, number < entry.1) (bare : ∀ entry ∈ entries, '\n' ∉ entry.2)
    (offset : Nat) :
    ∃ gap ready, (∀ line ∈ gap, line.IsGap) ∧ Line.Shown entries ready ∧
      lines ⟨Text.placeLines (number + 1) entries, offset, number⟩ = gap ++ ready := by
  induction entries generalizing number offset with
  | nil => exact ⟨[], [], List.forall_mem_nil _, .nil, lines_of_nil offset number⟩
  | cons entry entries inductionHypothesis =>
      obtain ⟨line, text⟩ := entry
      obtain ⟨above, laterRest⟩ := List.forall_mem_cons.1 later
      obtain ⟨bareText, bareRest⟩ := List.forall_mem_cons.1 bare
      rw [List.map_cons, List.pairwise_cons, List.forall_mem_map] at ordered
      obtain ⟨gap, start, blank, skipped⟩ := exists_lines_replicate (line - (number + 1))
        (text ++ '\n' :: Text.placeLines (line + 1) entries) offset number
      obtain ⟨first, next, shows, read⟩ := exists_lines_cons bareText
        (Text.placeLines (line + 1) entries) start (number + (line - (number + 1)))
      obtain ⟨between, ready, blankBetween, shown, others⟩ :=
        inductionHypothesis ordered.2 ordered.1 bareRest next
      have counted : number + (line - (number + 1)) + 1 = line := by omega
      rw [counted] at shows read
      refine ⟨gap, first :: (between ++ ready), blank, .cons shows blankBetween shown, ?_⟩
      rw [Text.placeLines, skipped, read, others]

end LineReader

/-- Every spelling is read as its keyword, whatever follows. -/
theorem Keyword.read?_append {entry : Text × Keyword} (listed : entry ∈ spellings) (rest : Text) :
    read? (entry.1 ++ rest) = some (entry.2, rest) := by
  have every : ∀ entry ∈ spellings, ∀ rest, read? (entry.1 ++ rest) = some (entry.2, rest) := by
    simp only [spellings, List.forall_mem_cons]
    repeat' apply And.intro
    all_goals first | exact List.forall_mem_nil _ | exact fun _ => rfl
  exact every entry listed rest

/-- Trimming a heading leaves the keyword with the name behind it. -/
theorem Text.exists_trim_heading {spelling name : Text} (trimmedSpelling : trim spelling = spelling)
    (present : spelling ≠ []) (trimmed : trim name = name) :
    ∃ back, trim (spelling ++ ' ' :: name) = spelling ++ back ∧ trim back = name := by
  have space : ∀ character ∈ [' '], isBlank character = true := List.forall_mem_singleton.2 rfl
  by_cases empty : name = []
  · refine ⟨[], ?_, empty.symm⟩
    have cut := trim_append_of_blank (List.forall_mem_nil _) space spelling
    rw [empty, List.append_nil]
    rwa [trimmedSpelling] at cut
  · have bare := trim_append_of_blank space (List.forall_mem_nil _) name
    rw [List.append_nil, trimmed] at bare
    refine ⟨' ' :: name, (trim_eq_self_iff _).2 ⟨?_, ?_⟩, bare⟩
    · rw [List.head?_append_of_ne_nil _ present]
      exact ((trim_eq_self_iff _).1 trimmedSpelling).1
    · rw [List.append_cons, List.getLast?_append_of_ne_nil _ empty]
      exact ((trim_eq_self_iff _).1 trimmed).2

/-- This is the keyword on the line of a node. -/
def Kind.keyword? : Kind → Option Keyword
  | .feature _ => some .feature
  | .rule _ => some .rule
  | .background _ => some .background
  | .scenario _ => some .scenario
  | .outline _ => some .outline
  | .examples _ => some .examples
  | .row => some .row
  | .file _ | .cell _ => none

namespace Line.Shows

theorem number_eq {line : Line} {number : Nat} {text : Text} (shows : line.Shows number text) :
    line.number = number := by
  obtain ⟨span, rfl⟩ := shows
  exact ofContent_number _ _ _

theorem isBlank_eq_false {line : Line} {number : Nat} {text : Text} {keyword : Keyword}
    (shows : line.Shows number text) (found : line.keyword? = some keyword) :
    line.isBlank = false := by
  obtain ⟨span, rfl⟩ := shows
  rw [isBlank, ofContent_content]
  cases kept : Text.trim text with
  | nil =>
      rw [kept] at found
      cases found
  | cons => rfl

/-- A line that shows a keyword and a name is read as this keyword with this name. -/
theorem heading {line : Line} {number : Nat} {spelling name : Text} {keyword : Keyword}
    (listed : (spelling, keyword) ∈ Keyword.spellings) (trimmedSpelling : Text.trim spelling = spelling)
    (present : spelling ≠ []) (isName : Text.IsName name)
    (shows : line.Shows number (spelling ++ ' ' :: name)) :
    line.keyword? = some keyword ∧ line.text = name := by
  obtain ⟨span, rfl⟩ := shows
  obtain ⟨back, kept, trimmed⟩ := Text.exists_trim_heading trimmedSpelling present isName.1
  rw [kept, ofContent, Keyword.read?_append listed]
  exact ⟨rfl, trimmed⟩

/-- The line of a named node has its keyword and its name. -/
theorem of_name? {line : Line} {number : Nat} {kind : Kind} {name : Text} {cells : List Text}
    (named : kind.name? = some name) (isName : Text.IsName name)
    (shows : line.Shows number (kind.write cells)) :
    line.keyword? = kind.keyword? ∧ line.text = name := by
  have spelled (entry : Text × Keyword) (listed : entry ∈ Keyword.spellings)
      (trimmed : Text.trim entry.1 = entry.1) (present : entry.1 ≠ []) :
      line.Shows number (entry.1 ++ ' ' :: name) →
        line.keyword? = some entry.2 ∧ line.text = name :=
    heading listed trimmed present isName
  cases kind <;> cases named
  case feature => exact spelled ("Feature:".toList, .feature) (by decide) rfl (by decide) shows
  case rule => exact spelled ("Rule:".toList, .rule) (by decide) rfl (by decide) shows
  case background => exact spelled ("Background:".toList, .background) (by decide) rfl (by decide) shows
  case scenario => exact spelled ("Scenario:".toList, .scenario) (by decide) rfl (by decide) shows
  case outline => exact spelled ("Scenario Outline:".toList, .outline) (by decide) rfl (by decide) shows
  case examples => exact spelled ("Examples:".toList, .examples) (by decide) rfl (by decide) shows

/-- The line of a row has its cells. -/
theorem of_row {line : Line} {number : Nat} {cells : List Text}
    (trimmed : ∀ cell ∈ cells, Text.trim cell = cell)
    (shows : line.Shows number (Row.write cells)) :
    line.keyword? = some .row ∧ Row.cellsOf line.content = cells := by
  obtain ⟨span, rfl⟩ := shows
  rw [ofContent_content, Row.trim_write, Row.cellsOf_write_of_trimmed trimmed]
  exact ⟨rfl, rfl⟩

end Line.Shows

end FeatureLint
