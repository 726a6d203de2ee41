import FeatureLint.Proofs.Cursor

/-!
This file says what one turn of a cursor can do and what follows for a whole run. Main statements: a sound cursor
never faults, each turn passes over one line or leaves one frame, so a run ends after a bounded number of turns,
and no line is read twice.
-/

namespace FeatureLint.Cursor

variable {cursor next : Cursor} {line : Line}

/-- A fair result is no fault, and the cursor that it leads to is sound again and has moved. -/
def Fair (cursor : Cursor) (result : Except Fault Turn) : Prop :=
  ∃ turn, result = .ok turn ∧ ∀ next, turn = .next next → next.Sound ∧ cursor.Moves next

/-- A result that ends the run is fair. -/
theorem fair_ended (cursor : Cursor) (outcome : Except ParseError Arena) :
    cursor.Fair (.ok (.ended outcome)) := by
  refine ⟨.ended outcome, rfl, ?_⟩
  intro next impossible
  cases impossible

/-- A result is fair when its cursor is sound and has moved. -/
theorem fair_next (sound : next.Sound) (moves : cursor.Moves next) :
    cursor.Fair (.ok (.next next)) := by
  refine ⟨.next next, rfl, ?_⟩
  intro other same
  cases same
  exact ⟨sound, moves⟩

/-- It is fair to leave the innermost frame. -/
theorem Sound.fair_leave (sound : cursor.Sound) (inside : cursor.frames ≠ []) :
    cursor.Fair (.ok (.next cursor.leave)) :=
  fair_next sound.leave (Or.inr ⟨inside, rfl⟩)

/-- It is fair to pass over a line. -/
theorem Sound.fair_skip (sound : cursor.Sound) (found : cursor.line? = some line) :
    cursor.Fair (.ok (.next cursor.skip)) :=
  fair_next (sound.skip found)
    (Or.inl ⟨rfl, position_lt_of_line? found, rfl, Nat.le_add_right _ _⟩)

/-- It is fair to pass over a line and to go on in a new frame, whose node may have just been hung. -/
theorem Sound.fair_opened (sound : cursor.Sound) (found : cursor.line? = some line)
    {branches : List Branch} {grown : Arena} (grows : cursor.arena.Grown branches grown)
    {frame : Frame} (known : ∀ node ∈ frame.node?, node < grown.size) {outer : List Frame}
    (kept : outer.Sublist cursor.frames) :
    cursor.Fair (.ok (.next ⟨cursor.lines, cursor.position + 1, grown, frame :: outer⟩)) := by
  have inside := position_lt_of_line? found
  have grownSound := (sound.skip found).grow grows
  apply fair_next
  · refine ⟨sound.fences, inside, grownSound.root, ?_⟩
    intro other member
    rcases List.mem_cons.1 member with rfl | outside
    · exact known
    · exact grownSound.known other (kept.subset outside)
  · refine Or.inl ⟨rfl, inside, rfl, ?_⟩
    have shorter := kept.length_le
    simp only [List.length_cons]
    omega

/-- It is fair to hang the node of a line and to go on below it. -/
theorem Sound.fair_openNode (sound : cursor.Sound) (found : cursor.line? = some line) {parent : Nat}
    (known : parent < cursor.arena.size) (kind : Text → Kind) {frame : Nat → Frame}
    (below : ∀ node, (frame node).node? = some node) :
    cursor.Fair (cursor.openNode parent kind frame) := by
  obtain ⟨grown, opened, grows⟩ := exists_openNode found known kind frame
  rw [opened]
  apply sound.fair_opened found grows _ (List.Sublist.refl _)
  intro node isNode
  rw [below, Option.mem_some] at isNode
  have size := grows.size
  simp only [List.length_singleton] at size
  omega

/-- It is fair to open a block, whether or not it turns out to be an outline. -/
theorem Sound.fair_openBlock (sound : cursor.Sound) (found : cursor.line? = some line) {parent : Nat}
    (known : parent < cursor.arena.size) : cursor.Fair (cursor.openBlock parent) := by
  obtain ⟨grown, opened, grows⟩ := exists_openBlock sound found known []
  rw [opened]
  apply sound.fair_opened found grows _ (List.Sublist.refl _)
  intro node isNode
  rw [Frame.node?, Option.mem_some] at isNode
  have size := grows.size
  simp only [List.length_singleton] at size
  omega

/-- It is fair to read a row, whether or not it fits its table. -/
theorem Sound.fair_addRow (sound : cursor.Sound) (found : cursor.line? = some line) {node : Nat}
    (known : node < cursor.arena.size) (width? : Option Nat) :
    cursor.Fair (cursor.addRow node width? line) := by
  by_cases fits : (Row.cellsOf line.content).length = width?.getD (Row.cellsOf line.content).length
  · obtain ⟨grown, added, grows⟩ := exists_addRow known fits
    rw [added]
    apply sound.fair_opened found grows _ (List.tail_sublist _)
    intro table isTable
    rw [Frame.node?, Option.mem_some] at isTable
    have size := grows.size
    omega
  · rw [addRow, if_neg fits]
    exact fair_ended _ _

/-- A section is read fairly when it treats a rule fairly. -/
theorem Sound.fair_stepSection (sound : cursor.Sound) (inside : cursor.frames ≠ []) {node : Nat}
    (known : node < cursor.arena.size) (expected : Text) {atRule : Except Fault Turn}
    (fair : ∀ line, cursor.line? = some line → cursor.Fair atRule) :
    cursor.Fair (cursor.stepSection node expected atRule) := by
  unfold stepSection
  split
  · exact sound.fair_leave inside
  · next line found =>
      split
      all_goals first
        | exact sound.fair_skip found
        | exact fair line found
        | exact sound.fair_openBlock found known
        | exact sound.fair_leave inside
        | exact fair_ended _ _

/-- The body of a block is read fairly. -/
theorem Sound.fair_stepBlock (sound : cursor.Sound) (inside : cursor.frames ≠ []) {node : Nat}
    (known : node < cursor.arena.size) (isOutline : Bool) :
    cursor.Fair (cursor.stepBlock node isOutline) := by
  unfold stepBlock
  split
  · exact sound.fair_leave inside
  · next line found =>
      split
      case h_6 isFence =>
        rw [openDocString_eq sound found isFence]
        exact sound.fair_opened found (.refl _) (by simp [Frame.node?]) (List.Sublist.refl _)
      case h_7 =>
        split
        · exact sound.fair_openNode found known _ fun _ => rfl
        · exact fair_ended _ _
      all_goals first | exact sound.fair_skip found | exact sound.fair_leave inside

/-- A table is read fairly. -/
theorem Sound.fair_stepExamples (sound : cursor.Sound) (inside : cursor.frames ≠ []) {node : Nat}
    (known : node < cursor.arena.size) (width? : Option Nat) :
    cursor.Fair (cursor.stepExamples node width?) := by
  unfold stepExamples
  split
  · exact sound.fair_leave inside
  · next line found =>
      split
      all_goals first
        | exact sound.fair_skip found
        | exact sound.fair_addRow found known width?
        | exact sound.fair_leave inside
        | exact fair_ended _ _

/-- A doc string is read fairly, also when it is never closed. -/
theorem Sound.fair_stepDocString (sound : cursor.Sound) (opening : Line) (fence : Text) :
    cursor.Fair (cursor.stepDocString opening fence) := by
  unfold stepDocString
  split
  · exact fair_ended _ _
  · next line found =>
      split
      · apply fair_next (sound.leave.skip found)
        refine Or.inl ⟨rfl, position_lt_of_line? found, rfl, ?_⟩
        have shorter := (List.tail_sublist cursor.frames).length_le
        show cursor.frames.tail.length ≤ _
        omega
      · exact sound.fair_skip found

/-- The first line of the feature is read fairly. -/
theorem Sound.fair_stepOpening (sound : cursor.Sound) (inside : cursor.frames ≠ []) :
    cursor.Fair cursor.stepOpening := by
  unfold stepOpening
  split
  · exact sound.fair_leave inside
  · next line found =>
      split
      · obtain ⟨grown, opened, grows⟩ :=
          @exists_openNode cursor.leave line found 0 sound.root .feature .feature
        rw [opened]
        apply sound.fair_opened found grows _ (List.tail_sublist _)
        intro node isNode
        rw [Frame.node?, Option.mem_some] at isNode
        have size := grows.size
        simp only [List.length_singleton] at size
        omega
      · exact fair_ended _ _

/-- One turn of a sound cursor is fair, whatever is being read. -/
theorem Sound.fair_step (sound : cursor.Sound) : cursor.Fair cursor.step := by
  have known (frame : Frame) (member : frame ∈ cursor.frames) := sound.known frame member
  have inside {frame : Frame} {outer : List Frame} (frames : cursor.frames = frame :: outer) :
      cursor.frames ≠ [] := by simp [frames]
  unfold step
  split
  · unfold stepEnd
    split <;> exact fair_ended _ _
  · next frames =>
      unfold stepPreamble
      split
      · exact sound.fair_leave (inside frames)
      · next line found =>
          split
          · exact sound.fair_skip found
          · exact sound.fair_leave (inside frames)
  · next frames => exact sound.fair_stepOpening (inside frames)
  · next node outer frames =>
      have isNode : node < cursor.arena.size := known (.feature node) (by simp [frames]) node rfl
      exact sound.fair_stepSection (inside frames) isNode _ fun line found =>
        sound.fair_openNode found isNode _ fun _ => rfl
  · next node outer frames =>
      have isNode : node < cursor.arena.size := known (.rule node) (by simp [frames]) node rfl
      exact sound.fair_stepSection (inside frames) isNode _ fun _ _ => sound.fair_leave (inside frames)
  · next node isOutline outer frames =>
      have isNode : node < cursor.arena.size :=
        known (.block node isOutline) (by simp [frames]) node rfl
      exact sound.fair_stepBlock (inside frames) isNode isOutline
  · next node width? outer frames =>
      have isNode : node < cursor.arena.size :=
        known (.examples node width?) (by simp [frames]) node rfl
      exact sound.fair_stepExamples (inside frames) isNode width?
  · next opening fence outer frames => exact sound.fair_stepDocString opening fence

/-- A turn of a sound cursor leads to a sound cursor and moves. -/
theorem Sound.turn (sound : cursor.Sound) (stepped : cursor.step = .ok (.next next)) :
    next.Sound ∧ cursor.Moves next := by
  obtain ⟨turn, same, fair⟩ := sound.fair_step
  rw [stepped] at same
  cases same
  exact fair next rfl

/-- A move changes the place in the lines and not the lines. -/
theorem Moves.lines (moves : cursor.Moves next) : next.lines = cursor.lines := by
  rcases moves with ⟨same, -⟩ | ⟨-, rfl⟩
  · exact same
  · rfl

/-- This number falls with every turn, since a turn that enters a frame also passes over a line. -/
def budget (cursor : Cursor) : Nat :=
  2 * (cursor.lines.length - cursor.position) + cursor.frames.length

/-- Every move uses up a part of the budget. -/
theorem Moves.budget_lt (moves : cursor.Moves next) : next.budget < cursor.budget := by
  unfold budget
  rcases moves with ⟨same, inside, position, frames⟩ | ⟨inside, rfl⟩
  · rw [same, position]
    omega
  · have positive := List.length_pos_iff.2 inside
    simp only [leave, List.length_tail]
    omega

/-- A run with enough turns ends without a fault. -/
theorem Sound.exists_run (sound : cursor.Sound) {limit : Nat} (enough : cursor.budget < limit) :
    ∃ outcome, cursor.run limit = some (.ok outcome) := by
  induction limit generalizing cursor with
  | zero => omega
  | succ limit inductionHypothesis =>
      obtain ⟨turn, stepped, fair⟩ := sound.fair_step
      cases turn with
      | ended outcome =>
          refine ⟨outcome, ?_⟩
          rw [run, stepped]
      | next next =>
          obtain ⟨nextSound, moves⟩ := fair next rfl
          have fewer := moves.budget_lt
          obtain ⟨outcome, ended⟩ := inductionHypothesis nextSound (by omega)
          refine ⟨outcome, ?_⟩
          rw [run, stepped]
          exact ended

namespace Reads

/-- Two runs of turns make one, and what they pass over is joined. -/
theorem trans {first second third : Cursor} {read others : List Line}
    (left : Reads first read second) (right : Reads second others third) :
    Reads first (read ++ others) third := by
  induction left with
  | stop => exact right
  | turn stepped _ inductionHypothesis =>
      rw [List.append_assoc]
      exact .turn stepped (inductionHypothesis right)

/-- Turns keep a cursor sound. -/
theorem sound {last : Cursor} {read : List Line} (reads : Reads cursor read last)
    (start : cursor.Sound) : last.Sound := by
  induction reads with
  | stop => exact start
  | turn stepped _ inductionHypothesis => exact inductionHypothesis (start.turn stepped).1

/-- Turns keep the lines. -/
theorem lines {last : Cursor} {read : List Line} (reads : Reads cursor read last)
    (start : cursor.Sound) : last.lines = cursor.lines := by
  induction reads with
  | stop => rfl
  | turn stepped _ inductionHypothesis =>
      obtain ⟨nextSound, moves⟩ := start.turn stepped
      rw [inductionHypothesis nextSound, moves.lines]

/-- What has been read and what is ahead are the lines that were ahead before, so no line is read twice. -/
theorem append_ahead {last : Cursor} {read : List Line} (reads : Reads cursor read last)
    (start : cursor.Sound) : read ++ last.ahead = cursor.ahead := by
  induction reads with
  | stop => rfl
  | @turn cursor next last read stepped _ inductionHypothesis =>
      obtain ⟨nextSound, moves⟩ := start.turn stepped
      rw [List.append_assoc, inductionHypothesis nextSound]
      rcases moves with ⟨same, -, position, -⟩ | ⟨-, rfl⟩
      · rw [ahead, ahead, same, position, Nat.add_sub_cancel_left, ← List.drop_drop,
          List.take_append_drop]
      · simp [leave, ahead]

end Reads

end FeatureLint.Cursor
