import FeatureLint.Proofs.CursorTurns

/-!
This file follows a cursor through each part of a feature file. Main statements: the turns of a cursor read each
part like the reader of that part, with the same error or with the same nodes laid out in the arena, and so a run
from the start of a file never faults, reads each line at most once and ends with what the parser returns.
-/

namespace FeatureLint

/-- An arena that was grown from the root of a document by its branches is the arena of the document. -/
theorem Arena.Grown.eq_arena {document : Document} {arena : Arena}
    (grows : (ofRoot document.root).Grown document.branches arena) : arena = document.arena := by
  have linked := grows.linked (linked_ofRoot document.root)
  have earlier := grows.earlier (earlier_ofRoot document.root)
  obtain ⟨other, found, same⟩ := exists_document linked earlier
  have slots : arena.slots.map Slot.branch = ⟨0, document.root⟩ :: document.branches := grows.branches
  obtain ⟨root, rest, whole, first, others⟩ := List.map_eq_cons_iff.1 slots
  rw [document?, whole] at found
  obtain ⟨grounded, made⟩ := Option.dite_none_right_eq_some.1 found
  cases made
  have sameRoot : root.node = document.root := congrArg Branch.node first
  rw [← same]
  congr 1
  cases document
  simp_all

/-- This function lays out what a reader has read when the first item gets the number `next`. -/
def laidOut {Item : Type} (layout : Nat → Item → List Branch) (next : Nat)
    (read : Except ParseError (List Item × List Line)) : Except ParseError (List Branch × List Line) :=
  read.map fun (items, after) => (layoutAll layout next items, after)

/-- This is what the frames of features and rules have in common: the node that blocks hang from and what is expected
in place of any other line. -/
def Frame.section? : Frame → Option (Nat × Text)
  | feature node => some (node, "a scenario, rule or background".toList)
  | rule node => some (node, "a scenario or background".toList)
  | _ => none

namespace Cursor

variable {cursor next : Cursor} {line : Line} {rest : List Line} {below : List Frame}

/-- The line at the cursor is the first of the lines ahead. -/
theorem line?_eq_head? (cursor : Cursor) : cursor.line? = cursor.ahead.head? := by
  rw [line?, ahead, List.head?_drop]

theorem line?_of_ahead (here : cursor.ahead = line :: rest) : cursor.line? = some line := by
  rw [line?_eq_head?, here, List.head?_cons]

theorem line?_of_ahead_nil (finished : cursor.ahead = []) : cursor.line? = none := by
  rw [line?_eq_head?, finished, List.head?_nil]

/-- Passing over a line leaves the others ahead. -/
theorem ahead_skip (here : cursor.ahead = line :: rest) : cursor.skip.ahead = rest := by
  rw [ahead] at here
  rw [skip, ahead, ← List.drop_drop, here, List.drop_succ_cons, List.drop_zero]

/-- Some turns lead from one cursor to another. -/
def Leads (cursor last : Cursor) : Prop :=
  ∃ read, Reads cursor read last

theorem Leads.refl (cursor : Cursor) : cursor.Leads cursor :=
  ⟨[], .stop cursor⟩

theorem Leads.turn (stepped : cursor.step = .ok (.next next)) : cursor.Leads next :=
  ⟨_, .turn stepped (.stop next)⟩

theorem Leads.trans {last : Cursor} (first : cursor.Leads next) (second : next.Leads last) :
    cursor.Leads last := by
  obtain ⟨read, reads⟩ := first
  obtain ⟨others, readsOthers⟩ := second
  exact ⟨read ++ others, reads.trans readsOthers⟩

/-- A sound cursor leads only to sound ones. -/
theorem Leads.sound {last : Cursor} (leads : cursor.Leads last) (sound : cursor.Sound) : last.Sound := by
  obtain ⟨read, reads⟩ := leads
  exact reads.sound sound

/-- The turns of a cursor deliver what a reader returns when they end with its error, or when they lead behind the
lines that it has read with their branches in the arena. -/
def Delivers (cursor : Cursor) (frames : List Frame) :
    Except ParseError (List Branch × List Line) → Prop
  | .error error => ∃ last, cursor.Leads last ∧ last.step = .ok (.ended (.error error))
  | .ok (branches, after) =>
      ∃ last, cursor.Leads last ∧ last.ahead = after ∧ last.frames = frames ∧
        cursor.arena.Grown branches last.arena

/-- A turn that ends with an error delivers the error. -/
theorem delivers_error {error : ParseError} (stepped : cursor.step = .ok (.ended (.error error))) :
    cursor.Delivers below (.error error) :=
  ⟨cursor, .refl cursor, stepped⟩

/-- A reader that reads nothing is followed without any turn. -/
theorem delivers_here (frames : cursor.frames = below) {after : List Line} (here : cursor.ahead = after) :
    cursor.Delivers below (.ok ([], after)) :=
  ⟨cursor, .refl cursor, here, frames, .refl _⟩

/-- A turn that leaves the innermost frame reads nothing. -/
theorem delivers_leave {frame : Frame} (frames : cursor.frames = frame :: below)
    (stepped : cursor.step = .ok (.next cursor.leave)) {after : List Line}
    (here : cursor.ahead = after) : cursor.Delivers below (.ok ([], after)) :=
  ⟨cursor.leave, .turn stepped, here, congrArg List.tail frames, .refl _⟩

/-- A turn that passes over a line delivers the branches that it hangs into the arena. -/
theorem delivers_turn {frames : List Frame} {branches : List Branch} {grown : Arena}
    (here : cursor.ahead = line :: rest)
    (stepped : cursor.step = .ok (.next ⟨cursor.lines, cursor.position + 1, grown, frames⟩))
    (grows : cursor.arena.Grown branches grown) : cursor.Delivers frames (.ok (branches, rest)) :=
  ⟨_, .turn stepped, @ahead_skip cursor line rest here, rfl, grows⟩

/-- A turn that opens a node delivers its branch. -/
theorem delivers_openNode {parent : Nat} {kind : Text → Kind} {frame : Nat → Frame}
    (here : cursor.ahead = line :: rest) (known : parent < cursor.arena.size)
    (stepped : cursor.step = cursor.openNode parent kind frame) :
    cursor.Delivers (frame cursor.arena.size :: cursor.frames)
      (.ok ([⟨parent, kind line.text, line.number⟩], rest)) := by
  obtain ⟨grown, opened, grows⟩ := exists_openNode (line?_of_ahead here) known kind frame
  exact delivers_turn here (stepped.trans opened) grows

/-- What is delivered after some turns is delivered behind the branches of these turns. -/
theorem Delivers.behind {front : List Branch} {frames : List Frame}
    {read : Except ParseError (List Branch × List Line)} (leads : cursor.Leads next)
    (grows : cursor.arena.Grown front next.arena) (delivers : next.Delivers frames read) :
    cursor.Delivers frames (read.map fun (branches, after) => (front ++ branches, after)) := by
  cases read with
  | error error =>
      obtain ⟨last, later, stepped⟩ := delivers
      exact ⟨last, leads.trans later, stepped⟩
  | ok read =>
      obtain ⟨last, later, here, there, growsLater⟩ := delivers
      exact ⟨last, leads.trans later, here, there, grows.trans growsLater⟩

/-- Turns that hang nothing may come first. -/
theorem Delivers.after {frames : List Frame} {read : Except ParseError (List Branch × List Line)}
    (leads : cursor.Leads next) (grows : cursor.arena.Grown [] next.arena)
    (delivers : next.Delivers frames read) : cursor.Delivers frames read := by
  have behind := delivers.behind leads grows
  cases read <;> exact behind

/-- One more item is laid out in front of those that are delivered later. -/
theorem Delivers.item {Item : Type} {layout : Nat → Item → List Branch} {item : Item} {items : List Item}
    {after : List Line} {frames : List Frame} (leads : cursor.Leads next)
    (grows : cursor.arena.Grown (layout cursor.arena.size item) next.arena)
    (delivers : next.Delivers frames (laidOut layout next.arena.size (.ok (items, after)))) :
    cursor.Delivers frames (laidOut layout cursor.arena.size (.ok (item :: items, after))) := by
  have behind := delivers.behind leads grows
  rw [grows.size] at behind
  exact behind

/-- Before the feature the cursor passes over what its reader drops. -/
theorem delivers_preamble (frames : cursor.frames = .preamble :: below) :
    cursor.Delivers below (.ok ([], cursor.ahead.dropWhile Feature.isPreamble)) := by
  generalize here : cursor.ahead = lines
  induction lines generalizing cursor with
  | nil =>
      have stepped : cursor.step = .ok (.next cursor.leave) := by
        simp only [step, frames, stepPreamble, line?_of_ahead_nil here]
      exact delivers_leave frames stepped here
  | cons line rest inductionHypothesis =>
      by_cases preamble : Feature.isPreamble line = true
      · have stepped : cursor.step = .ok (.next cursor.skip) := by
          simp only [step, frames, stepPreamble, line?_of_ahead here, if_pos preamble]
        rw [List.dropWhile_cons_of_pos preamble]
        exact (@inductionHypothesis cursor.skip frames (ahead_skip here)).after (.turn stepped) (.refl _)
      · have stepped : cursor.step = .ok (.next cursor.leave) := by
          simp only [step, frames, stepPreamble, line?_of_ahead here, if_neg preamble]
        rw [List.dropWhile_cons_of_neg preamble]
        exact delivers_leave frames stepped here

/-- The cursor goes through a doc string like its reader. -/
theorem delivers_skipDocString? {opening : Line} {fence : Text}
    (frames : cursor.frames = .docString opening fence :: below) :
    cursor.Delivers below
      (match Block.skipDocString? fence cursor.ahead with
      | none => .error (.onLine opening .unterminatedDocString)
      | some after => .ok ([], after)) := by
  generalize here : cursor.ahead = lines
  fun_induction Block.skipDocString? fence lines generalizing cursor with
  | case1 =>
      apply delivers_error
      simp only [step, frames, stepDocString, line?_of_ahead_nil here]
  | case2 line rest closes =>
      have stepped : cursor.step = .ok (.next cursor.leave.skip) := by
        simp only [step, frames, stepDocString, line?_of_ahead here, if_pos closes]
      exact ⟨cursor.leave.skip, .turn stepped, ahead_skip here, congrArg List.tail frames, .refl _⟩
  | case3 line rest continues inductionHypothesis =>
      have stepped : cursor.step = .ok (.next cursor.skip) := by
        simp only [step, frames, stepDocString, line?_of_ahead here, if_neg continues]
      exact (@inductionHypothesis cursor.skip frames (ahead_skip here)).after (.turn stepped) (.refl _)

/-- A heading ends a table. -/
theorem stepExamples_of_opensSection (found : cursor.line? = some line) (heading : line.opensSection = true)
    (node : Nat) (width? : Option Nat) : cursor.stepExamples node width? = .ok (.next cursor.leave) := by
  obtain ⟨keyword, is, opens⟩ := Line.exists_keyword_of_opensSection heading
  cases keyword <;> first | contradiction | simp [stepExamples, found, is]

/-- In a table every line without a meaning is passed over. -/
theorem stepExamples_of_other (found : cursor.line? = some line) (other : ¬ line.opensSection = true)
    (notRow : line.keyword? ≠ some .row) (notStep : line.keyword? ≠ some .step)
    (notFence : line.keyword? ≠ some .fence) (notExamples : line.keyword? ≠ some .examples)
    (node : Nat) (width? : Option Nat) : cursor.stepExamples node width? = .ok (.next cursor.skip) := by
  cases is : line.keyword? with
  | none => simp [stepExamples, found, is]
  | some keyword =>
      cases keyword <;> simp_all [stepExamples, Line.opensSection, Keyword.opensSection, Keyword.opensBlock]

/-- A row that fits is delivered with its cells. -/
theorem delivers_row {node : Nat} {width? : Option Nat} (sound : cursor.Sound)
    (frames : cursor.frames = .examples node width? :: below) (here : cursor.ahead = line :: rest)
    (isRow : line.keyword? = some .row)
    (fits : (Row.cellsOf line.content).length = width?.getD (Row.cellsOf line.content).length) :
    cursor.Delivers (.examples node (some (width?.getD (Row.cellsOf line.content).length)) :: below)
      (.ok (Row.layout node cursor.arena.size ⟨line.number, Row.cellsOf line.content⟩, rest)) := by
  have known := sound.known (.examples node width?) (by simp [frames]) node rfl
  obtain ⟨grown, added, grows⟩ := exists_addRow known fits
  rw [frames, List.tail_cons] at added
  apply delivers_turn here _ grows
  simp only [step, frames, stepExamples, line?_of_ahead here, isRow]
  exact added

/-- The cursor goes through a table like the reader of its rows. -/
theorem delivers_readRows {node : Nat} {width? : Option Nat} (sound : cursor.Sound)
    (frames : cursor.frames = .examples node width? :: below) :
    cursor.Delivers below
      (laidOut (Row.layout node) cursor.arena.size (Examples.readRows width? cursor.ahead)) := by
  generalize here : cursor.ahead = lines
  fun_induction Examples.readRows width? lines generalizing cursor with
  | case1 =>
      have stepped : cursor.step = .ok (.next cursor.leave) := by
        simp only [step, frames, stepExamples, line?_of_ahead_nil here]
      exact delivers_leave frames stepped here
  | case2 width? line rest isRow row width fits error read =>
      rename_i inductionHypothesis
      obtain ⟨next, leads, there, inside, grows⟩ := delivers_row sound frames here isRow fits
      have later := inductionHypothesis (leads.sound sound) inside there
      rw [read] at later
      exact later.behind leads grows
  | case3 width? line rest isRow row width fits rows after read =>
      rename_i inductionHypothesis
      obtain ⟨next, leads, there, inside, grows⟩ := delivers_row sound frames here isRow fits
      have later := inductionHypothesis (leads.sound sound) inside there
      rw [read] at later
      exact later.item leads grows
  | case4 width? line rest isRow row width =>
      rename_i misfits
      apply delivers_error
      simp only [step, frames, stepExamples, line?_of_ahead here, isRow]
      exact if_neg misfits
  | case5 width? line rest isStep =>
      apply delivers_error
      simp only [step, frames, stepExamples, line?_of_ahead here, isStep]
  | case6 width? line rest isFence =>
      apply delivers_error
      simp only [step, frames, stepExamples, line?_of_ahead here, isFence]
  | case7 width? line rest isExamples =>
      have stepped : cursor.step = .ok (.next cursor.leave) := by
        simp only [step, frames, stepExamples, line?_of_ahead here, isExamples]
      exact delivers_leave frames stepped here
  | case8 width? line rest heading =>
      have stepped : cursor.step = .ok (.next cursor.leave) := by
        simp only [step, frames, stepExamples_of_opensSection (line?_of_ahead here) heading]
      exact delivers_leave frames stepped here
  | case9 width? line rest other notRow notStep notFence notExamples inductionHypothesis =>
      have stepped : cursor.step = .ok (.next cursor.skip) := by
        simp only [step, frames, stepExamples_of_other (line?_of_ahead here) other notRow notStep notFence
          notExamples]
      exact (inductionHypothesis (sound.turn stepped).1 frames (ahead_skip here)).after (.turn stepped)
        (.refl _)

/-- A heading ends a block. -/
theorem stepBlock_of_opensSection (found : cursor.line? = some line) (heading : line.opensSection = true)
    (node : Nat) (isOutline : Bool) : cursor.stepBlock node isOutline = .ok (.next cursor.leave) := by
  obtain ⟨keyword, is, opens⟩ := Line.exists_keyword_of_opensSection heading
  cases keyword <;> first | contradiction | simp [stepBlock, found, is]

/-- In a block every line without a meaning is passed over. -/
theorem stepBlock_of_other (found : cursor.line? = some line) (other : ¬ line.opensSection = true)
    (notFence : line.keyword? ≠ some .fence) (notExamples : line.keyword? ≠ some .examples)
    (node : Nat) (isOutline : Bool) : cursor.stepBlock node isOutline = .ok (.next cursor.skip) := by
  cases is : line.keyword? with
  | none => simp [stepBlock, found, is]
  | some keyword =>
      cases keyword <;> simp_all [stepBlock, Line.opensSection, Keyword.opensSection, Keyword.opensBlock]

/-- A doc string in a block is read up to the line that closes it. -/
theorem delivers_docString {node : Nat} {isOutline : Bool} (sound : cursor.Sound)
    (frames : cursor.frames = .block node isOutline :: below) (here : cursor.ahead = line :: rest)
    (isFence : line.keyword? = some .fence) :
    cursor.Delivers cursor.frames
      (match Block.skipDocString? (Block.fenceOf line) rest with
      | none => .error (.onLine line .unterminatedDocString)
      | some after => .ok ([], after)) := by
  have stepped : cursor.step = cursor.openDocString := by
    simp only [step, frames, stepBlock, line?_of_ahead here, isFence]
  rw [openDocString_eq sound (line?_of_ahead here) isFence] at stepped
  have inside := @delivers_skipDocString? (cursor.skip.enter (.docString line (Block.fenceOf line)))
    cursor.frames line (Block.fenceOf line) rfl
  rw [← ahead_skip here]
  exact inside.after (.turn stepped) (.refl _)

/-- Examples in an outline are read with all their rows. -/
theorem delivers_examples {node : Nat} (sound : cursor.Sound)
    (frames : cursor.frames = .block node true :: below) (here : cursor.ahead = line :: rest)
    (isExamples : line.keyword? = some .examples) :
    cursor.Delivers cursor.frames ((Examples.readRows none rest).map fun (rows, after) =>
      (Examples.layout node cursor.arena.size ⟨line.number, line.text, rows⟩, after)) := by
  have known := sound.known (.block node true) (by simp [frames]) node rfl
  have stepped : cursor.step = cursor.openNode node .examples (.examples · none) := by
    simp only [step, frames, stepBlock, line?_of_ahead here, isExamples, if_pos]
  obtain ⟨next, leads, there, inside, grows⟩ := delivers_openNode here known stepped
  have rows := (delivers_readRows (leads.sound sound) inside).behind leads grows
  rw [there, grows.size] at rows
  cases read : Examples.readRows none rest <;> rw [read] at rows <;> exact rows

/-- The cursor goes through a body like its reader. -/
theorem delivers_readBody {node : Nat} {isOutline : Bool} (sound : cursor.Sound)
    (frames : cursor.frames = .block node isOutline :: below) :
    cursor.Delivers below
      (laidOut (Examples.layout node) cursor.arena.size (Block.readBody isOutline cursor.ahead)) := by
  generalize here : cursor.ahead = lines
  fun_induction Block.readBody isOutline lines generalizing cursor with
  | case1 =>
      have stepped : cursor.step = .ok (.next cursor.leave) := by
        simp only [step, frames, stepBlock, line?_of_ahead_nil here]
      exact delivers_leave frames stepped here
  | case2 line rest isFence unclosed =>
      have doc := delivers_docString sound frames here isFence
      rw [unclosed] at doc
      exact doc
  | case3 line rest isFence after skipped inductionHypothesis =>
      have doc := delivers_docString sound frames here isFence
      rw [skipped] at doc
      obtain ⟨next, leads, there, inside, grows⟩ := doc
      have later := inductionHypothesis (leads.sound sound) (inside.trans frames) there
      rw [grows.size] at later
      exact later.after leads grows
  | case4 line rest isExamples allowed error rowsRead =>
      have table := delivers_examples sound (allowed ▸ frames) here isExamples
      rw [rowsRead] at table
      exact table
  | case5 line rest isExamples allowed rows after rowsRead error bodyRead inductionHypothesis =>
      have table := delivers_examples sound (allowed ▸ frames) here isExamples
      rw [rowsRead] at table
      obtain ⟨next, leads, there, inside, grows⟩ := table
      have later := inductionHypothesis (leads.sound sound) (inside.trans frames) there
      rw [bodyRead] at later
      exact later.behind leads grows
  | case6 line rest isExamples allowed rows after rowsRead tables last bodyRead inductionHypothesis =>
      have table := delivers_examples sound (allowed ▸ frames) here isExamples
      rw [rowsRead] at table
      obtain ⟨next, leads, there, inside, grows⟩ := table
      have later := inductionHypothesis (leads.sound sound) (inside.trans frames) there
      rw [bodyRead] at later
      exact later.item leads grows
  | case7 line rest isExamples isPlain =>
      apply delivers_error
      simp only [step, frames, stepBlock, line?_of_ahead here, isExamples, if_neg isPlain]
  | case8 line rest heading notFence notExamples =>
      have stepped : cursor.step = .ok (.next cursor.leave) := by
        simp only [step, frames, stepBlock_of_opensSection (line?_of_ahead here) heading]
      exact delivers_leave frames stepped here
  | case9 line rest other notFence notExamples inductionHypothesis =>
      have stepped : cursor.step = .ok (.next cursor.skip) := by
        simp only [step, frames, stepBlock_of_other (line?_of_ahead here) other notFence notExamples]
      exact (inductionHypothesis (sound.turn stepped).1 frames (ahead_skip here)).after (.turn stepped)
        (.refl _)

/-- A turn that opens a block delivers the branch that its reader makes. -/
theorem delivers_openBlock {parent : Nat} (sound : cursor.Sound) (here : cursor.ahead = line :: rest)
    (known : parent < cursor.arena.size) (stepped : cursor.step = cursor.openBlock parent)
    (tables : List Examples) :
    cursor.Delivers (.block cursor.arena.size (Block.isOutline line rest) :: cursor.frames)
      (.ok ([⟨parent, (Block.formOf line (Block.isOutline line rest) tables).kind line.text,
        line.number⟩], rest)) := by
  obtain ⟨grown, opened, grows⟩ := exists_openBlock sound (line?_of_ahead here) known tables
  rw [ahead_skip here] at opened grows
  exact delivers_turn here (stepped.trans opened) grows

/-- A block is read with all its examples. -/
theorem delivers_read {parent : Nat} (sound : cursor.Sound) (here : cursor.ahead = line :: rest)
    (known : parent < cursor.arena.size) (stepped : cursor.step = cursor.openBlock parent) :
    cursor.Delivers cursor.frames ((Block.read line rest).map fun (block, after) =>
      (Block.layout parent cursor.arena.size block, after)) := by
  have opened := delivers_openBlock sound here known stepped
  rw [Block.read]
  cases read : Block.readBody (Block.isOutline line rest) rest with
  | error error =>
      obtain ⟨next, leads, there, inside, grows⟩ := opened []
      have body := (delivers_readBody (leads.sound sound) inside).behind leads grows
      rw [there, read] at body
      exact body
  | ok result =>
      obtain ⟨tables, after⟩ := result
      obtain ⟨next, leads, there, inside, grows⟩ := opened tables
      have body := (delivers_readBody (leads.sound sound) inside).behind leads grows
      rw [there, read, grows.size] at body
      show cursor.Delivers cursor.frames (.ok (Block.layout parent cursor.arena.size _, after))
      rw [Block.layout, Above.tables_formOf read]
      exact body

/-- In a section blocks are read, and every other line with a structure is an error. -/
theorem exists_stepSection {frame : Frame} {node : Nat} {expected : Text}
    (isSection : frame.section? = some (node, expected)) (frames : cursor.frames = frame :: below) :
    ∃ atRule, cursor.step = cursor.stepSection node expected atRule := by
  cases frame <;> cases isSection <;> exact ⟨_, by rw [step, frames]⟩

/-- In a sound cursor the node of a section is there. -/
theorem Sound.section_known {frame : Frame} {node : Nat} {expected : Text} (sound : cursor.Sound)
    (isSection : frame.section? = some (node, expected)) (frames : cursor.frames = frame :: below) :
    node < cursor.arena.size := by
  apply sound.known frame (by simp [frames])
  cases frame <;> cases isSection <;> rfl

/-- A section goes on behind each of its blocks. -/
theorem delivers_block {frame : Frame} {node : Nat} {expected : Text} (sound : cursor.Sound)
    (isSection : frame.section? = some (node, expected)) (frames : cursor.frames = frame :: below)
    (here : cursor.ahead = line :: rest) (opens : line.opensBlock = true) :
    cursor.Delivers (frame :: below) ((Block.read line rest).map fun (block, after) =>
      (Block.layout node cursor.arena.size block, after)) := by
  obtain ⟨atRule, stepped⟩ := exists_stepSection isSection frames
  have opened : cursor.stepSection node expected atRule = cursor.openBlock node := by
    obtain ⟨keyword, is, isBlock⟩ := Line.exists_keyword_of_opensBlock opens
    cases keyword <;> first | contradiction | simp [stepSection, line?_of_ahead here, is]
  rw [← frames]
  exact delivers_read sound here (sound.section_known isSection frames) (stepped.trans opened)

/-- The blocks of a feature or a rule are read one after the other. -/
theorem delivers_readAll {frame : Frame} {node : Nat} {expected : Text} (sound : cursor.Sound)
    (isSection : frame.section? = some (node, expected)) (frames : cursor.frames = frame :: below) :
    cursor.Delivers (frame :: below)
      (laidOut (Block.layout node) cursor.arena.size (Block.readAll expected cursor.ahead)) := by
  generalize here : cursor.ahead = lines
  fun_induction Block.readAll expected lines generalizing cursor with
  | case1 => exact delivers_here frames here
  | case2 line rest isRule => exact delivers_here frames here
  | case3 line rest isFeature => exact delivers_here frames here
  | case4 line rest isExamples =>
      obtain ⟨atRule, stepped⟩ := exists_stepSection isSection frames
      apply delivers_error
      simp only [stepped, stepSection, line?_of_ahead here, isExamples]
  | case5 line rest isStep =>
      obtain ⟨atRule, stepped⟩ := exists_stepSection isSection frames
      apply delivers_error
      simp only [stepped, stepSection, line?_of_ahead here, isStep]
  | case6 line rest isRow =>
      obtain ⟨atRule, stepped⟩ := exists_stepSection isSection frames
      apply delivers_error
      simp only [stepped, stepSection, line?_of_ahead here, isRow]
  | case7 line rest isFence =>
      obtain ⟨atRule, stepped⟩ := exists_stepSection isSection frames
      apply delivers_error
      simp only [stepped, stepSection, line?_of_ahead here, isFence]
  | case8 line rest opens error blockRead =>
      have first := delivers_block sound isSection frames here opens
      rw [blockRead] at first
      exact first
  | case9 line rest opens block after blockRead error othersRead _ _ _ _ _ _ inductionHypothesis =>
      have first := delivers_block sound isSection frames here opens
      rw [blockRead] at first
      obtain ⟨next, leads, there, inside, grows⟩ := first
      have later := inductionHypothesis (leads.sound sound) inside there
      rw [othersRead] at later
      exact later.behind leads grows
  | case10 line rest opens block after blockRead others last othersRead _ _ _ _ _ _
      inductionHypothesis =>
      have first := delivers_block sound isSection frames here opens
      rw [blockRead] at first
      obtain ⟨next, leads, there, inside, grows⟩ := first
      have later := inductionHypothesis (leads.sound sound) inside there
      rw [othersRead] at later
      exact later.item leads grows
  | case11 line rest other notRule notFeature notExamples notStep notRow notFence
      inductionHypothesis =>
      obtain ⟨atRule, inSection⟩ := exists_stepSection isSection frames
      have stepped : cursor.step = .ok (.next cursor.skip) := by
        simp only [inSection, stepSection, line?_of_ahead here]
        cases is : line.keyword? with
        | none => rfl
        | some keyword => cases keyword <;> simp_all [Line.opensBlock, Keyword.opensBlock]
      exact (inductionHypothesis (sound.turn stepped).1 frames (ahead_skip here)).after (.turn stepped)
        (.refl _)

/-- A rule is left at the next rule, at a second feature and at the end. -/
theorem step_rule {node : Nat} (frames : cursor.frames = .rule node :: below)
    (starts : StartsRuleOrFeature cursor.ahead) : cursor.step = .ok (.next cursor.leave) := by
  cases here : cursor.ahead with
  | nil => simp only [step, frames, stepSection, line?_of_ahead_nil here]
  | cons line rest =>
      rcases starts line rest here with isRule | isFeature
      · simp only [step, frames, stepSection, line?_of_ahead here, isRule]
      · simp only [step, frames, stepSection, line?_of_ahead here, isFeature]

/-- A rule is read with all its blocks, and then its feature goes on. -/
theorem delivers_rule {node : Nat} (sound : cursor.Sound)
    (frames : cursor.frames = .feature node :: below) (here : cursor.ahead = line :: rest)
    (isRule : line.keyword? = some .rule) :
    cursor.Delivers cursor.frames
      ((Block.readAll "a scenario or background".toList rest).map fun (blocks, after) =>
        (Rule.layout node cursor.arena.size ⟨line.number, line.text, blocks⟩, after)) := by
  have known := sound.known (.feature node) (by simp [frames]) node rfl
  have stepped : cursor.step = cursor.openNode node .rule .rule := by
    simp only [step, frames, stepSection, line?_of_ahead here, isRule]
  obtain ⟨next, leads, there, inside, grows⟩ := delivers_openNode here known stepped
  have blocks := (delivers_readAll (leads.sound sound) rfl inside).behind leads grows
  rw [there, grows.size] at blocks
  cases read : Block.readAll "a scenario or background".toList rest with
  | error error =>
      rw [read] at blocks
      exact blocks
  | ok result =>
      obtain ⟨items, after⟩ := result
      rw [read] at blocks
      obtain ⟨last, leadsLast, thereLast, insideLast, growsLast⟩ := blocks
      have left := step_rule insideLast (thereLast ▸ startsRuleOrFeature_of_readAll read)
      exact ⟨last.leave, leadsLast.trans (.turn left), thereLast, congrArg List.tail insideLast, growsLast⟩

/-- The cursor goes through the rules of a feature like their reader. -/
theorem delivers_readRules {node : Nat} (sound : cursor.Sound)
    (frames : cursor.frames = .feature node :: below) (starts : StartsRuleOrFeature cursor.ahead) :
    cursor.Delivers below
      (laidOut (Rule.layout node) cursor.arena.size (Rule.readAll cursor.ahead)) := by
  generalize here : cursor.ahead = lines
  fun_induction Rule.readAll lines generalizing cursor with
  | case1 =>
      have stepped : cursor.step = .ok (.next cursor.leave) := by
        simp only [step, frames, stepSection, line?_of_ahead_nil here]
      exact delivers_leave frames stepped here
  | case2 line rest isRule error blocksRead =>
      have first := delivers_rule sound frames here isRule
      rw [blocksRead] at first
      exact first
  | case3 line rest isRule blocks after blocksRead error rulesRead inductionHypothesis =>
      have first := delivers_rule sound frames here isRule
      rw [blocksRead] at first
      obtain ⟨next, leads, there, inside, grows⟩ := first
      have later := inductionHypothesis (leads.sound sound) (inside.trans frames)
        (there ▸ startsRuleOrFeature_of_readAll blocksRead) there
      rw [rulesRead] at later
      exact later.behind leads grows
  | case4 line rest isRule blocks after blocksRead rules last rulesRead inductionHypothesis =>
      have first := delivers_rule sound frames here isRule
      rw [blocksRead] at first
      obtain ⟨next, leads, there, inside, grows⟩ := first
      have later := inductionHypothesis (leads.sound sound) (inside.trans frames)
        (there ▸ startsRuleOrFeature_of_readAll blocksRead) there
      rw [rulesRead] at later
      exact later.item leads grows
  | case5 line rest notRule =>
      have isFeature := (starts line rest here).resolve_left notRule
      have stepped : cursor.step = .ok (.next cursor.leave) := by
        simp only [step, frames, stepSection, line?_of_ahead here, isFeature]
      exact delivers_leave frames stepped here

/-- The first line of the feature delivers its branch. -/
theorem delivers_opening (sound : cursor.Sound) (frames : cursor.frames = [.opening])
    (here : cursor.ahead = line :: rest) (isFeature : line.keyword? = some .feature) :
    cursor.Delivers [.feature cursor.arena.size]
      (.ok ([⟨0, .feature line.text, line.number⟩], rest)) := by
  have stepped : cursor.step = cursor.leave.openNode 0 .feature .feature := by
    simp only [step, frames, stepOpening, line?_of_ahead here, if_pos isFeature]
  obtain ⟨grown, opened, grows⟩ :=
    @exists_openNode cursor.leave line (line?_of_ahead here) 0 sound.root .feature .feature
  have outside : cursor.leave.frames = [] := congrArg List.tail frames
  rw [outside] at opened
  exact delivers_turn here (stepped.trans opened) grows

/-- The first line of a feature is followed by its blocks and its rules. -/
theorem delivers_feature (sound : cursor.Sound) (frames : cursor.frames = [.opening])
    (here : cursor.ahead = line :: rest) (isFeature : line.keyword? = some .feature) :
    cursor.Delivers [] ((Feature.read line rest).map fun (feature, after) =>
      (Feature.layout 0 cursor.arena.size feature, after)) := by
  obtain ⟨next, leads, there, inside, grows⟩ := delivers_opening sound frames here isFeature
  have blocks := (delivers_readAll (leads.sound sound) rfl inside).behind leads grows
  rw [there, grows.size, List.length_singleton] at blocks
  rw [Feature.read]
  cases blocksRead : Block.readAll "a scenario, rule or background".toList rest with
  | error error =>
      rw [blocksRead] at blocks
      exact blocks
  | ok result =>
      obtain ⟨items, after⟩ := result
      rw [blocksRead] at blocks
      obtain ⟨last, leadsLast, thereLast, insideLast, growsLast⟩ := blocks
      have rules := (delivers_readRules (leadsLast.sound sound) insideLast
        (thereLast ▸ startsRuleOrFeature_of_readAll blocksRead)).behind leadsLast growsLast
      rw [thereLast, growsLast.size, List.length_append, List.length_singleton, ← Nat.add_assoc] at rules
      dsimp only
      cases rulesRead : Rule.readAll after <;> rw [rulesRead] at rules <;> exact rules

/-- After the feature the run ends, and a second feature is an error. -/
theorem step_end (frames : cursor.frames = []) :
    cursor.step = .ok (.ended (match cursor.ahead with
      | [] => .ok cursor.arena
      | second :: _ => .error (.onLine second .duplicateFeature))) := by
  cases here : cursor.ahead with
  | nil => simp only [step, frames, stepEnd, line?_of_ahead_nil here]
  | cons second rest => simp only [step, frames, stepEnd, line?_of_ahead here]

/-- From the start of a file some turns lead to the end that the parser returns. -/
theorem exists_end (path : Path) (source : Text) :
    ∃ last, (start path source).Leads last ∧
      last.step = .ok (.ended ((Document.parse path source).map Document.arena)) := by
  obtain ⟨opening, leads, there, inside, grows⟩ := @delivers_preamble (start path source) _ rfl
  have sound := leads.sound (sound_start path source)
  have whole : (start path source).ahead = Line.ofSource source := List.drop_zero
  rw [whole] at there
  rw [Document.parse, Feature.ofLines]
  cases left : (Line.ofSource source).dropWhile Feature.isPreamble with
  | nil =>
      rw [left] at there
      have stepped : opening.step = .ok (.next opening.leave) := by
        simp only [step, inside, stepOpening, line?_of_ahead_nil there]
      refine ⟨opening.leave, leads.trans (.turn stepped), ?_⟩
      have finished : opening.leave.ahead = [] := there
      rw [step_end (congrArg List.tail inside), finished]
      have same := @Arena.Grown.eq_arena (.ofFeature path none) _ grows
      exact congrArg (fun arena => Except.ok (Turn.ended (.ok arena))) same
  | cons line rest =>
      rw [left] at there
      by_cases isFeature : line.keyword? = some .feature
      · have feature := (delivers_feature sound inside there isFeature).behind leads grows
        rw [grows.size] at feature
        simp only [if_pos isFeature]
        cases read : Feature.read line rest with
        | error error =>
            rw [read] at feature
            exact feature
        | ok result =>
            obtain ⟨found, after⟩ := result
            rw [read] at feature
            obtain ⟨last, leadsLast, thereLast, insideLast, growsLast⟩ := feature
            refine ⟨last, leadsLast, ?_⟩
            rw [step_end insideLast, thereLast]
            cases after with
            | nil =>
                have same := @Arena.Grown.eq_arena (.ofFeature path (some found)) last.arena (by
                  simpa [Document.ofFeature, layoutAll, start, Arena.ofRoot, Arena.size] using growsLast)
                exact congrArg (fun arena => Except.ok (Turn.ended (.ok arena))) same
            | cons second others => rfl
      · refine ⟨opening, leads, ?_⟩
        simp only [step, inside, stepOpening, line?_of_ahead there, if_neg isFeature]
        rfl

/-- A run ends as the cursor does that it leads to. -/
theorem run_of_leads {last : Cursor} (leads : cursor.Leads last) {outcome : Except ParseError Arena}
    (stepped : last.step = .ok (.ended outcome)) {limit : Nat}
    {result : Except Fault (Except ParseError Arena)} (ran : cursor.run limit = some result) :
    result = .ok outcome := by
  obtain ⟨read, reads⟩ := leads
  induction reads generalizing limit with
  | stop cursor =>
      cases limit with
      | zero => cases ran
      | succ limit =>
          rw [run, stepped] at ran
          exact (Option.some.inj ran).symm
  | turn first _ inductionHypothesis =>
      cases limit with
      | zero => cases ran
      | succ limit =>
          rw [run, first] at ran
          exact inductionHypothesis stepped ran

/-- A cursor that starts before the first line of a source never faults, whatever the source is. In every state that
it reaches, all fences can be cut out, the position is not behind the end and every frame holds the number of a
node. The lines read so far are the first ones, each read once. A turn ends the run, passes over exactly one line or
leaves one frame at the same line. So the run ends, after a number of turns that the number of lines bounds, and it
ends with the error of the parser or with the arena of the document that is parsed. -/
theorem run_never_faults_and_ends (path : Path) (source : Text) :
    (∀ read cursor, Reads (start path source) read cursor →
      cursor.Sound ∧ cursor.lines = Line.ofSource source ∧
        read = (Line.ofSource source).take cursor.position ∧
        ∃ turn, cursor.step = .ok turn ∧ ∀ next, turn = .next next → cursor.Moves next) ∧
    (start path source).run (2 * (Line.ofSource source).length + 3) =
      some (.ok ((Document.parse path source).map Document.arena)) := by
  have startSound := sound_start path source
  constructor
  · intro read cursor reads
    have sound := reads.sound startSound
    have lines : cursor.lines = Line.ofSource source := reads.lines startSound
    refine ⟨sound, lines, ?_, ?_⟩
    · -- What is left behind the position is the rest, so what was read is the start.
      have whole : read ++ (Line.ofSource source).drop cursor.position = Line.ofSource source := by
        rw [← lines, ← ahead, reads.append_ahead startSound, lines]
        rfl
      have halves := List.take_append_drop cursor.position (Line.ofSource source)
      exact List.append_cancel_right (whole.trans halves.symm)
    · obtain ⟨turn, stepped, fair⟩ := sound.fair_step
      exact ⟨turn, stepped, fun next same => (fair next same).2⟩
  · have enough : (start path source).budget < 2 * (Line.ofSource source).length + 3 := by
      show 2 * ((Line.ofSource source).length - 0) + 2 < _
      omega
    obtain ⟨outcome, ran⟩ := startSound.exists_run enough
    obtain ⟨last, leads, stepped⟩ := exists_end path source
    rw [ran, run_of_leads leads stepped ran]

end Cursor

end FeatureLint
