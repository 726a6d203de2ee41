import FeatureLint.Proofs.Insertion
import FeatureLint.Proofs.Placement
import FeatureLint.Proofs.Trees

/-!
This file reads a feature file with a cursor that moves over the lines and hangs nodes into an arena. The cursor
keeps a stack of the parts that it is in. Every access that can miss its target is guarded, and a missed target is
a fault. Main statements: what each guarded access does when its target is there, and that looking ahead decides
like the reader of a block.
-/

namespace FeatureLint

/-- A fault is an access without a target. -/
inductive Fault where
  /-- A line was taken after the last one. -/
  | noLine
  /-- A content has no character boundary after its first three bytes. -/
  | noFence
  /-- The lines ahead were asked for from a place after the end. -/
  | noLinesAhead
  /-- A node was hung from a number that no node has. -/
  | noParent
deriving DecidableEq, Repr

/-- A frame is a part of the file that is being read, with the number of its node. -/
inductive Frame where
  | preamble
  /-- After the preamble comes the first line of the feature. -/
  | opening
  | feature (node : Nat)
  | rule (node : Nat)
  | block (node : Nat) (isOutline : Bool)
  /-- The first row of a table fixes its width. -/
  | examples (node : Nat) (width? : Option Nat)
  | docString (opening : Line) (fence : Text)
deriving DecidableEq, Repr

/-- This is the node that the lines of a frame hang from. -/
def Frame.node? : Frame → Option Nat
  | feature node | rule node | block node _ | examples node _ => some node
  | preamble | opening | docString _ _ => none

/-- The innermost frame comes first. When no frame is left, the feature is over. -/
structure Cursor where
  lines : List Line
  position : Nat
  arena : Arena
  frames : List Frame
deriving DecidableEq, Repr

/-- A turn leads to another cursor, or it ends the run with an error or with all nodes of the file. -/
inductive Cursor.Turn where
  | next (cursor : Cursor)
  | ended (outcome : Except ParseError Arena)

/-- This function cuts the fence out of the first three bytes of a line. -/
def Line.fence (line : Line) : Except Fault Text :=
  match Text.takeBytes? 3 line.content with
  | some fence => .ok fence
  | none => .error .noFence

namespace Cursor

def start (path : Path) (source : Text) : Cursor :=
  ⟨Line.ofSource source, 0, .ofRoot ⟨.file path, 1⟩, [.preamble, .opening]⟩

/-- This is the line at the cursor, if there is one. -/
def line? (cursor : Cursor) : Option Line :=
  cursor.lines[cursor.position]?

def skip (cursor : Cursor) : Cursor :=
  { cursor with position := cursor.position + 1 }

def enter (cursor : Cursor) (frame : Frame) : Cursor :=
  { cursor with frames := frame :: cursor.frames }

def leave (cursor : Cursor) : Cursor :=
  { cursor with frames := cursor.frames.tail }

/-- This function takes the line at the cursor without asking first whether there is one. -/
def take (cursor : Cursor) : Except Fault (Line × Cursor) :=
  match cursor.line? with
  | some line => .ok (line, cursor.skip)
  | none => .error .noLine

/-- This function cuts the lines from the cursor on out of all lines. -/
def linesAhead (cursor : Cursor) : Except Fault (List Line) :=
  if cursor.position ≤ cursor.lines.length then .ok (cursor.lines.drop cursor.position)
  else .error .noLinesAhead

/-- This function hangs a node, or a row with its cells, from a node that has to be there. -/
def hang (cursor : Cursor) (addition : Addition) : Except Fault Cursor :=
  if addition.parent < cursor.arena.size then
    match cursor.arena.add? addition with
    | some grown => .ok { cursor with arena := grown }
    | none => .error .noParent
  else .error .noParent

/-- This function looks for examples before the next section and cuts out the fence of every doc string on the
way. -/
def lookAhead : (open? : Option Text) → List Line → Except Fault Bool
  | _, [] => .ok false
  | some fence, line :: rest =>
      lookAhead (if Text.startsWith line.content fence then none else some fence) rest
  | none, line :: rest =>
      match line.keyword? with
      | some .fence => do
          let fence ← line.fence
          lookAhead (some fence) rest
      | some .examples => .ok true
      | _ => if line.opensSection then .ok false else lookAhead none rest

/-- This function decides whether the block that starts with the given line is an outline. The cursor is already
behind the line. -/
def judge (cursor : Cursor) (line : Line) : Except Fault (Kind × Bool) :=
  match line.keyword? with
  | some .background => .ok (.background line.text, false)
  | some .outline => .ok (.outline line.text, true)
  | _ => do
      let ahead ← cursor.linesAhead
      let found ← lookAhead none ahead
      return if found then (.outline line.text, true) else (.scenario line.text, false)

/-- This function takes a line, hangs its node and goes on below it. -/
def openNode (cursor : Cursor) (parent : Nat) (kind : Text → Kind) (frame : Nat → Frame) :
    Except Fault Turn := do
  let (line, taken) ← cursor.take
  let grown ← taken.hang (.node parent ⟨kind line.text, line.number⟩)
  return .next (grown.enter (frame cursor.arena.size))

def openBlock (cursor : Cursor) (parent : Nat) : Except Fault Turn := do
  let (line, taken) ← cursor.take
  let (kind, isOutline) ← taken.judge line
  let grown ← taken.hang (.node parent ⟨kind, line.number⟩)
  return .next (grown.enter (.block cursor.arena.size isOutline))

def openDocString (cursor : Cursor) : Except Fault Turn := do
  let (line, taken) ← cursor.take
  let fence ← line.fence
  return .next (taken.enter (.docString line fence))

/-- This function hangs a row from its table. All rows have the width of the first one. -/
def addRow (cursor : Cursor) (node : Nat) (width? : Option Nat) (line : Line) :
    Except Fault Turn :=
  let cells := Row.cellsOf line.content
  let width := width?.getD cells.length
  if cells.length = width then do
    let grown ← cursor.hang (.row node cells line.number)
    return .next (grown.leave.enter (.examples node (some width))).skip
  else
    .ok (.ended (.error (.onLine line (.misalignedRow width cells.length))))

/-- Features and rules hold blocks. They differ in what they do with a rule. -/
def stepSection (cursor : Cursor) (node : Nat) (expected : Text) (atRule : Except Fault Turn) :
    Except Fault Turn :=
  match cursor.line? with
  | none => .ok (.next cursor.leave)
  | some line =>
      match line.keyword? with
      | none | some .comment | some .tag => .ok (.next cursor.skip)
      | some .rule => atRule
      | some .background | some .scenario | some .outline => cursor.openBlock node
      | some .feature => .ok (.next cursor.leave)
      | some .examples => .ok (.ended (.error (.onLine line .examplesOutsideOutline)))
      | some .step | some .row | some .fence => .ok (.ended (.error (.unexpected line expected)))

def stepBlock (cursor : Cursor) (node : Nat) (isOutline : Bool) : Except Fault Turn :=
  match cursor.line? with
  | none => .ok (.next cursor.leave)
  | some line =>
      match line.keyword? with
      | none | some .comment | some .tag | some .step | some .row => .ok (.next cursor.skip)
      | some .fence => cursor.openDocString
      | some .examples =>
          if isOutline then cursor.openNode node .examples (.examples · none)
          else .ok (.ended (.error (.onLine line .examplesOutsideOutline)))
      | some .feature | some .rule | some .background | some .scenario | some .outline =>
          .ok (.next cursor.leave)

def stepExamples (cursor : Cursor) (node : Nat) (width? : Option Nat) : Except Fault Turn :=
  match cursor.line? with
  | none => .ok (.next cursor.leave)
  | some line =>
      match line.keyword? with
      | none | some .comment | some .tag => .ok (.next cursor.skip)
      | some .row => cursor.addRow node width? line
      | some .step | some .fence =>
          .ok (.ended (.error (.unexpected line "an examples table row".toList)))
      | some .examples | some .feature | some .rule | some .background | some .scenario
      | some .outline => .ok (.next cursor.leave)

/-- The line that closes a doc string belongs to it. -/
def stepDocString (cursor : Cursor) (opening : Line) (fence : Text) : Except Fault Turn :=
  match cursor.line? with
  | none => .ok (.ended (.error (.onLine opening .unterminatedDocString)))
  | some line =>
      if Text.startsWith line.content fence then .ok (.next cursor.leave.skip)
      else .ok (.next cursor.skip)

def stepPreamble (cursor : Cursor) : Except Fault Turn :=
  match cursor.line? with
  | none => .ok (.next cursor.leave)
  | some line => if Feature.isPreamble line then .ok (.next cursor.skip) else .ok (.next cursor.leave)

def stepOpening (cursor : Cursor) : Except Fault Turn :=
  match cursor.line? with
  | none => .ok (.next cursor.leave)
  | some line =>
      if line.keyword? = some .feature then cursor.leave.openNode 0 .feature .feature
      else .ok (.ended (.error (.unexpected line Keyword.feature.description)))

/-- After the feature there may be no more lines. -/
def stepEnd (cursor : Cursor) : Except Fault Turn :=
  match cursor.line? with
  | none => .ok (.ended (.ok cursor.arena))
  | some line => .ok (.ended (.error (.onLine line .duplicateFeature)))

/-- This function makes one turn, which is one round of the innermost loop. -/
def step (cursor : Cursor) : Except Fault Turn :=
  match cursor.frames with
  | [] => cursor.stepEnd
  | .preamble :: _ => cursor.stepPreamble
  | .opening :: _ => cursor.stepOpening
  | .feature node :: _ =>
      cursor.stepSection node "a scenario, rule or background".toList (cursor.openNode node .rule .rule)
  | .rule node :: _ =>
      cursor.stepSection node "a scenario or background".toList (.ok (.next cursor.leave))
  | .block node isOutline :: _ => cursor.stepBlock node isOutline
  | .examples node width? :: _ => cursor.stepExamples node width?
  | .docString opening fence :: _ => cursor.stepDocString opening fence

/-- This function makes as many turns as the limit allows. It gives nothing when the run is still going on. -/
def run : (limit : Nat) → Cursor → Option (Except Fault (Except ParseError Arena))
  | 0, _ => none
  | limit + 1, cursor =>
      match cursor.step with
      | .error fault => some (.error fault)
      | .ok (.ended outcome) => some (.ok outcome)
      | .ok (.next next) => run limit next

/-- These are the lines from the cursor on. -/
def ahead (cursor : Cursor) : List Line :=
  cursor.lines.drop cursor.position

/-- Some turns lead from one cursor to another and pass over the given lines. -/
inductive Reads : Cursor → List Line → Cursor → Prop
  | stop (cursor : Cursor) : Reads cursor [] cursor
  | turn {cursor next last : Cursor} {read : List Line} (stepped : cursor.step = .ok (.next next))
      (reads : Reads next read last) :
      Reads cursor (cursor.ahead.take (next.position - cursor.position) ++ read) last

/-- A turn that does not end the run passes over the line at the cursor, or it leaves the innermost frame and
changes nothing else. -/
def Moves (cursor next : Cursor) : Prop :=
  (next.lines = cursor.lines ∧ cursor.position < cursor.lines.length ∧
      next.position = cursor.position + 1 ∧ next.frames.length ≤ cursor.frames.length + 1) ∨
    (cursor.frames ≠ [] ∧ next = cursor.leave)

end Cursor

/-- The branches of a grown arena are added behind those that were there, and the arena stays a tree. -/
structure Arena.Grown (arena : Arena) (branches : List Branch) (grown : Arena) : Prop where
  branches : grown.slots.map Slot.branch = arena.slots.map Slot.branch ++ branches
  linked : arena.Linked → grown.Linked
  earlier : arena.Earlier → grown.Earlier

namespace Arena.Grown

theorem refl (arena : Arena) : arena.Grown [] arena :=
  ⟨(List.append_nil _).symm, id, id⟩

/-- An arena that grows twice has grown by both lists of branches. -/
theorem trans {arena middle grown : Arena} {first second : List Branch}
    (left : arena.Grown first middle) (right : middle.Grown second grown) :
    arena.Grown (first ++ second) grown := by
  constructor
  · rw [right.branches, left.branches, List.append_assoc]
  · exact fun linked => right.linked (left.linked linked)
  · exact fun earlier => right.earlier (left.earlier earlier)

/-- A grown arena has one more node for each branch. -/
theorem size {arena grown : Arena} {branches : List Branch} (grows : arena.Grown branches grown) :
    grown.size = arena.size + branches.length := by
  simpa [Arena.size] using congrArg List.length grows.branches

end Arena.Grown

/-- An addition below a node that is there always grows the arena. -/
theorem Arena.exists_grown {arena : Arena} {addition : Addition} (known : addition.parent < arena.size) :
    ∃ grown, arena.add? addition = some grown ∧
      arena.Grown (addition.branches arena.size) grown := by
  obtain ⟨grown, added, -, earlier⟩ := exists_add? (Nat.le_of_lt known)
  have all : arena.addAll? [addition] = some grown := by
    rw [addAll?, List.foldlM_cons, added]
    rfl
  refine ⟨grown, added, branches_of_add? added, ?_, ?_⟩
  · intro linked
    exact addAll?_induction (fun _ _ _ _ linked pushed => linked.push pushed) linked all
  · intro before
    exact earlier.2 ⟨before, known⟩

/-- The first bytes of a text are there exactly when they end between two characters. -/
theorem Text.takeBytes?_eq_some_iff (bytes : Nat) (text front : Text) :
    takeBytes? bytes text = some front ↔ ∃ back, text = front ++ back ∧ byteLength front = bytes := by
  constructor
  · intro taken
    fun_induction takeBytes? bytes text generalizing front with
    | case1 text =>
        cases taken
        exact ⟨text, rfl, rfl⟩
    | case2 => cases taken
    | case3 bytes character text fits inductionHypothesis =>
        obtain ⟨rest, restTaken, rfl⟩ := Option.map_eq_some_iff.1 taken
        obtain ⟨back, rfl, length⟩ := inductionHypothesis rest restTaken
        refine ⟨back, rfl, ?_⟩
        rw [byteLength_cons, length]
        omega
    | case4 => cases taken
  · rintro ⟨back, rfl, rfl⟩
    exact takeBytes?_append front back

/-- The fence of a line cannot be cut out exactly when no character ends after its first three bytes. -/
theorem Line.fence_eq_error_iff (line : Line) (fault : Fault) :
    line.fence = .error fault ↔
      fault = .noFence ∧ ¬ ∃ front back, line.content = front ++ back ∧ Text.byteLength front = 3 := by
  rw [fence]
  cases taken : Text.takeBytes? 3 line.content with
  | some front =>
      have boundary := (Text.takeBytes?_eq_some_iff 3 line.content front).1 taken
      simp only [reduceCtorEq, false_iff, not_and, not_not]
      intro _
      exact ⟨front, boundary⟩
  | none =>
      have missing : ¬ ∃ front back, line.content = front ++ back ∧ Text.byteLength front = 3 := by
        rintro ⟨front, boundary⟩
        rw [(Text.takeBytes?_eq_some_iff 3 line.content front).2 boundary] at taken
        cases taken
      rw [and_iff_left missing, Except.error.injEq]
      exact eq_comm

/-- Every fence of a source can be cut out. -/
theorem Line.fence_eq {source : Text} {line : Line} (member : line ∈ ofSource source)
    (isFence : line.keyword? = some .fence) : line.fence = .ok (Block.fenceOf line) := by
  have short : ∀ fence ∈ Text.fences, Text.byteLength fence = 3 := by decide
  have taken : Text.takeBytes? 3 line.content = some (Block.fenceOf line) := by
    rw [Text.takeBytes?_eq_some_iff]
    exact ⟨line.content.drop 3, (List.take_append_drop 3 _).symm, short _ (take_mem_fences member isFence)⟩
  rw [fence, taken]

namespace Cursor

variable {cursor next : Cursor} {line : Line} {rest : List Line}

/-- Taking a line fails exactly when the cursor is at the end or behind it. -/
theorem take_eq_error_iff (cursor : Cursor) (fault : Fault) :
    cursor.take = .error fault ↔ fault = .noLine ∧ cursor.lines.length ≤ cursor.position := by
  rw [take, line?]
  cases found : cursor.lines[cursor.position]? with
  | none => simp [List.getElem?_eq_none_iff.1 found, eq_comm]
  | some line =>
      have inside := (List.getElem?_eq_some_iff.1 found).1
      simp only [reduceCtorEq, false_iff, not_and]
      omega

/-- Cutting out the lines ahead fails exactly when the cursor is behind the end. -/
theorem linesAhead_eq_error_iff (cursor : Cursor) (fault : Fault) :
    cursor.linesAhead = .error fault ↔
      fault = .noLinesAhead ∧ cursor.lines.length < cursor.position := by
  rw [linesAhead]
  split
  · simp only [reduceCtorEq, false_iff, not_and]
    omega
  · next outside => simp [Nat.lt_of_not_le outside, eq_comm]

/-- Hanging a node fails exactly when its parent is not there. -/
theorem hang_eq_error_iff (cursor : Cursor) (addition : Addition) (fault : Fault) :
    cursor.hang addition = .error fault ↔
      fault = .noParent ∧ cursor.arena.size ≤ addition.parent := by
  rw [hang]
  split
  · next known =>
      obtain ⟨grown, added, -⟩ := Arena.exists_grown known
      rw [added]
      simp only [reduceCtorEq, false_iff, not_and]
      omega
  · next unknown => simp [Nat.le_of_not_lt unknown, eq_comm]

/-- Where there is a line, it can be taken. -/
theorem take_eq (found : cursor.line? = some line) : cursor.take = .ok (line, cursor.skip) := by
  rw [take, found]

/-- Below a node that is there a node can be hung, and the arena grows by its branches. -/
theorem exists_hang {addition : Addition} (known : addition.parent < cursor.arena.size) :
    ∃ grown, cursor.hang addition = .ok { cursor with arena := grown } ∧
      cursor.arena.Grown (addition.branches cursor.arena.size) grown := by
  obtain ⟨grown, added, grows⟩ := Arena.exists_grown known
  refine ⟨grown, ?_, grows⟩
  rw [hang, if_pos known, added]

/-- Where there is a line, the cursor is not yet at the end. -/
theorem position_lt_of_line? (found : cursor.line? = some line) :
    cursor.position < cursor.lines.length :=
  (List.getElem?_eq_some_iff.1 found).1

/-- In a sound cursor every access has its target: all fences can be cut out, the position is not behind the end,
and the frames hold numbers of nodes. -/
structure Sound (cursor : Cursor) : Prop where
  fences : ∀ line ∈ cursor.lines, line.keyword? = some .fence → line.fence = .ok (Block.fenceOf line)
  position_le : cursor.position ≤ cursor.lines.length
  root : 0 < cursor.arena.size
  known : ∀ frame ∈ cursor.frames, ∀ node ∈ frame.node?, node < cursor.arena.size

/-- The cursor at the start of a source is sound. -/
theorem sound_start (path : Path) (source : Text) : (start path source).Sound := by
  constructor
  · intro line member isFence
    exact Line.fence_eq member isFence
  · exact Nat.zero_le _
  · exact Nat.zero_lt_one
  · intro frame member node known
    simp only [start, List.mem_cons, List.not_mem_nil, or_false] at member
    rcases member with rfl | rfl <;> cases known

namespace Sound

/-- Leaving a frame keeps a cursor sound. -/
theorem leave (sound : cursor.Sound) : cursor.leave.Sound :=
  ⟨sound.fences, sound.position_le, sound.root,
    fun frame member => sound.known frame (List.mem_of_mem_tail member)⟩

/-- Passing over a line keeps a cursor sound. -/
theorem skip (sound : cursor.Sound) (found : cursor.line? = some line) : cursor.skip.Sound :=
  ⟨sound.fences, position_lt_of_line? found, sound.root, sound.known⟩

/-- An arena that grows keeps the cursor sound, since no node goes away. -/
theorem grow (sound : cursor.Sound) {branches : List Branch} {grown : Arena}
    (grows : cursor.arena.Grown branches grown) : Sound { cursor with arena := grown } := by
  have size := grows.size
  have root := sound.root
  refine ⟨sound.fences, sound.position_le, ?_, ?_⟩
  · show 0 < grown.size
    omega
  · intro frame member node found
    have before := sound.known frame member node found
    show node < grown.size
    omega

end Sound

/-- Looking ahead finds what the reader of a block finds, as long as every fence can be cut out. -/
theorem lookAhead_eq {lines : List Line}
    (fences : ∀ line ∈ lines, line.keyword? = some .fence → line.fence = .ok (Block.fenceOf line))
    (open? : Option Text) : lookAhead open? lines = .ok (Block.hasExamples open? lines) := by
  induction lines generalizing open? with
  | nil => cases open? <;> rfl
  | cons line rest inductionHypothesis =>
      obtain ⟨here, others⟩ := List.forall_mem_cons.1 fences
      cases open? with
      | some fence =>
          rw [lookAhead, inductionHypothesis others]
          cases line.keyword? <;> rfl
      | none =>
          have later := inductionHypothesis others
          cases found : line.keyword? with
          | none =>
              simp only [lookAhead, Block.hasExamples, found, later]
              split <;> rfl
          | some keyword =>
              cases keyword
              case fence =>
                rw [lookAhead, found, here found]
                show lookAhead (some (Block.fenceOf line)) rest = _
                rw [later]
                simp [Block.hasExamples, found]
              case examples => simp [lookAhead, Block.hasExamples, found]
              all_goals
                simp only [lookAhead, Block.hasExamples, found, later]
                split <;> rfl

/-- The kind and the form of a block are decided alike. -/
theorem judge_eq (sound : cursor.Sound) (line : Line) (tables : List Examples) :
    cursor.judge line =
      .ok ((Block.formOf line (Block.isOutline line cursor.ahead) tables).kind line.text,
        Block.isOutline line cursor.ahead) := by
  have found : lookAhead none cursor.ahead = .ok (Block.hasExamples none cursor.ahead) :=
    lookAhead_eq (fun line member => sound.fences line (List.mem_of_mem_drop member)) none
  have inside : cursor.linesAhead = .ok cursor.ahead := if_pos sound.position_le
  unfold judge
  split
  · next isBackground => simp [isBackground, Block.isOutline, Block.formOf, Block.Form.kind]
  · next isOutline => simp [isOutline, Block.isOutline, Block.formOf, Block.Form.kind]
  · next notBackground notOutline =>
      have judged : Block.isOutline line cursor.ahead = Block.hasExamples none cursor.ahead := by
        unfold Block.isOutline
        split <;> first | contradiction | rfl
      rw [inside, judged, Block.formOf, if_neg notBackground]
      show (do
        let found ← lookAhead none cursor.ahead
        return if found then (Kind.outline line.text, true) else (.scenario line.text, false)) = _
      rw [found]
      cases Block.hasExamples none cursor.ahead <;> rfl

/-- Opening a node takes the line, hangs the node of the line and enters its frame. -/
theorem exists_openNode (found : cursor.line? = some line) {parent : Nat}
    (known : parent < cursor.arena.size) (kind : Text → Kind) (frame : Nat → Frame) :
    ∃ grown, cursor.openNode parent kind frame =
        .ok (.next ⟨cursor.lines, cursor.position + 1, grown, frame cursor.arena.size :: cursor.frames⟩) ∧
      cursor.arena.Grown [⟨parent, kind line.text, line.number⟩] grown := by
  obtain ⟨grown, hung, grows⟩ :=
    @exists_hang cursor.skip (.node parent ⟨kind line.text, line.number⟩) known
  refine ⟨grown, ?_, grows⟩
  rw [openNode, take_eq found]
  show (do
    let grown ← cursor.skip.hang (.node parent ⟨kind line.text, line.number⟩)
    return Turn.next (grown.enter (frame cursor.arena.size))) = _
  rw [hung]
  rfl

/-- Opening a block hangs the node that its reader makes and enters its frame. -/
theorem exists_openBlock (sound : cursor.Sound) (found : cursor.line? = some line) {parent : Nat}
    (known : parent < cursor.arena.size) (tables : List Examples) :
    ∃ grown, cursor.openBlock parent =
        .ok (.next ⟨cursor.lines, cursor.position + 1, grown,
          .block cursor.arena.size (Block.isOutline line cursor.skip.ahead) :: cursor.frames⟩) ∧
      cursor.arena.Grown
        [⟨parent, (Block.formOf line (Block.isOutline line cursor.skip.ahead) tables).kind line.text,
          line.number⟩] grown := by
  obtain ⟨grown, hung, grows⟩ := @exists_hang cursor.skip (.node parent
    ⟨(Block.formOf line (Block.isOutline line cursor.skip.ahead) tables).kind line.text, line.number⟩) known
  refine ⟨grown, ?_, grows⟩
  rw [openBlock, take_eq found]
  show (do
    let (kind, isOutline) ← cursor.skip.judge line
    let grown ← cursor.skip.hang (.node parent ⟨kind, line.number⟩)
    return Turn.next (grown.enter (.block cursor.arena.size isOutline))) = _
  rw [judge_eq (sound.skip found) line tables]
  show (do
    let grown ← cursor.skip.hang _
    return Turn.next (grown.enter (.block cursor.arena.size _))) = _
  rw [hung]
  rfl

/-- Opening a doc string passes over its fence and keeps the fence for the end. -/
theorem openDocString_eq (sound : cursor.Sound) (found : cursor.line? = some line)
    (isFence : line.keyword? = some .fence) :
    cursor.openDocString =
      .ok (.next (cursor.skip.enter (.docString line (Block.fenceOf line)))) := by
  rw [openDocString, take_eq found]
  show (do
    let fence ← line.fence
    return Turn.next (cursor.skip.enter (.docString line fence))) = _
  rw [sound.fences line (List.mem_of_getElem? found) isFence]
  rfl

/-- A row that fits is hung below its table. -/
theorem exists_addRow {node : Nat} (known : node < cursor.arena.size) {width? : Option Nat}
    (fits : (Row.cellsOf line.content).length = width?.getD (Row.cellsOf line.content).length) :
    ∃ grown, cursor.addRow node width? line =
        .ok (.next ⟨cursor.lines, cursor.position + 1, grown,
          .examples node (some (width?.getD (Row.cellsOf line.content).length)) :: cursor.frames.tail⟩) ∧
      cursor.arena.Grown (Row.layout node cursor.arena.size ⟨line.number, Row.cellsOf line.content⟩)
        grown := by
  obtain ⟨grown, hung, grows⟩ :=
    @exists_hang cursor (.row node (Row.cellsOf line.content) line.number) known
  refine ⟨grown, ?_, ?_⟩
  · rw [addRow, if_pos fits, hung]
    rfl
  · rw [Row.layout, Row.layoutAll_layoutCell]
    exact grows

end Cursor

end FeatureLint
