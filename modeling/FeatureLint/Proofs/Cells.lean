import FeatureLint.Proofs.Printing

/-!
This file says what the cells of a row are. A row is read from left to right as a list of signs, which
are single characters or a backslash with the character behind it, and the bars without a backslash cut
it into segments. Main statement: the cells of a row are the segments between two bars, decoded and
trimmed, so a row that was written from some values gives the trimmed values back.
-/

namespace FeatureLint.Row

/-- A sign is a backslash with the character behind it, or a single character. -/
inductive Sign where
  | escaped (character : Char)
  | plain (character : Char)
deriving DecidableEq, Repr

namespace Sign

def text : Sign → Text
  | escaped character => ['\\', character]
  | plain character => [character]

/-- A backslash takes its meaning from a bar. -/
def isBar : Sign → Bool
  | escaped _ => false
  | plain character => character = '|'

/-- A backslash before any other character than these three stands for itself. -/
def value : Sign → Text
  | escaped '|' => ['|']
  | escaped '\\' => ['\\']
  | escaped 'n' => ['\n']
  | escaped other => ['\\', other]
  | plain character => [character]

end Sign

/-- This function reads a text from left to right. A backslash at the end of the text is a single
character. -/
def signs : Text → List Sign
  | [] => []
  | '\\' :: character :: rest => .escaped character :: signs rest
  | character :: rest => .plain character :: signs rest

/-- No character is lost or read twice. -/
theorem flatMap_text_signs (content : Text) : (signs content).flatMap Sign.text = content := by
  fun_induction signs content with
  | case1 => rfl
  | case2 character rest inductionHypothesis =>
      rw [List.flatMap_cons, inductionHypothesis]
      rfl
  | case3 character rest _ inductionHypothesis =>
      rw [List.flatMap_cons, inductionHypothesis]
      rfl

/-- These are the decoded texts before, between and behind the bars. -/
def segments (content : Text) : List Text :=
  ((signs content).splitOnP Sign.isBar).map fun part => part.flatMap Sign.value

theorem segments_ne_nil (content : Text) : segments content ≠ [] := by
  rw [segments, ne_eq, List.map_eq_nil_iff]
  exact List.splitOnP_ne_nil _ _

/-- A bar ends the first segment. -/
theorem segments_of_isBar {content rest : Text} {sign : Sign} (read : signs content = sign :: signs rest)
    (isBar : sign.isBar = true) : segments content = [] :: segments rest := by
  rw [segments, read, List.splitOnP_cons_eq_if_modifyHead, if_pos isBar]
  rfl

/-- Every other sign adds its value to the first segment. -/
theorem segments_of_other {content rest : Text} {sign : Sign} (read : signs content = sign :: signs rest)
    (other : sign.isBar = false) :
    segments content = (segments rest).modifyHead (sign.value ++ ·) := by
  rw [segments, read, List.splitOnP_cons_eq_if_modifyHead, if_neg (by simp [other]), segments]
  cases (signs rest).splitOnP Sign.isBar <;> rfl

/-- There is one segment more than there are bars. -/
theorem length_segments (content : Text) :
    (segments content).length = (signs content).countP Sign.isBar + 1 := by
  rw [segments, List.length_map]
  induction signs content with
  | nil => rfl
  | cons sign rest inductionHypothesis =>
      rw [List.splitOnP_cons_eq_if_modifyHead]
      by_cases isBar : sign.isBar = true
      · rw [if_pos isBar, List.countP_cons_of_pos isBar, List.length_cons, inductionHypothesis]
      · rw [if_neg isBar, List.countP_cons_of_neg isBar, List.length_modifyHead, inductionHypothesis]

/-- The reader of a row puts the value of an escaped character into the cell. -/
theorem cellsFrom_escaped (opened : Bool) (cell : Text) (character : Char) (rest : Text) :
    cellsFrom opened cell ('\\' :: character :: rest) =
      cellsFrom opened ((Sign.escaped character).value.reverse ++ cell) rest := by
  unfold Sign.value
  split <;> simp_all [cellsFrom]

/-- The reader of a row puts a plain character into the cell. -/
theorem cellsFrom_plain (opened : Bool) (cell : Text) {character : Char} {rest : Text}
    (notBar : character ≠ '|') (single : character = '\\' → rest = []) :
    cellsFrom opened cell (character :: rest) = cellsFrom opened (character :: cell) rest := by
  by_cases isBackslash : character = '\\'
  · rw [isBackslash, single isBackslash]
    rfl
  · simp [cellsFrom, isBackslash]

/-- While a cell is open, its characters stand before the first segment. Before the first bar they are
dropped with it. -/
theorem cellsFrom_eq_segments (opened : Bool) (cell content : Text) :
    cellsFrom opened cell content =
      (if opened then (segments content).modifyHead (cell.reverse ++ ·)
        else (segments content).tail).dropLast.map Text.trim := by
  fun_induction signs content generalizing opened cell with
  | case1 => cases opened <;> rfl
  | case2 character rest inductionHypothesis =>
      have step : segments ('\\' :: character :: rest) =
          (segments rest).modifyHead ((Sign.escaped character).value ++ ·) :=
        segments_of_other rfl rfl
      rw [cellsFrom_escaped, inductionHypothesis, step]
      cases opened
      · simp
      · simp [List.modifyHead_modifyHead, Function.comp_def]
  | case3 character rest whole inductionHypothesis =>
      have read : signs (character :: rest) = .plain character :: signs rest := by
        rw [signs]
        exact whole
      have single : character = '\\' → rest = [] := by
        intro isBackslash
        by_contra present
        obtain ⟨next, after, more⟩ := List.exists_cons_of_ne_nil present
        exact whole next after isBackslash more
      by_cases isBar : character = '|'
      · -- The bar closes the open cell, and the next one starts empty.
        have step := segments_of_isBar read (by simp [Sign.isBar, isBar])
        have next : cellsFrom true [] rest = (segments rest).dropLast.map Text.trim := by
          rw [inductionHypothesis, if_pos rfl]
          exact congrArg (fun parts => (List.dropLast parts).map Text.trim)
            (congrFun List.modifyHead_id (segments rest))
        rw [isBar] at step ⊢
        rw [cellsFrom, next, step]
        cases opened
        · rfl
        · simp [List.dropLast_cons_of_ne_nil (segments_ne_nil rest)]
      · have step := segments_of_other read (by simp [Sign.isBar, isBar])
        rw [cellsFrom_plain opened cell isBar single, inductionHypothesis, step]
        cases opened
        · simp
        · simp [Sign.value, List.modifyHead_modifyHead, Function.comp_def]

/-- The cells of a row are the decoded and trimmed texts between the bars that have no backslash, one for
each bar but the first. What stands before the first bar or behind the last one is no cell. A row that was
written from some values gives the trimmed values back, and the values themselves when they are trimmed. -/
theorem cells_stand_between_bars :
    (∀ content, (signs content).flatMap Sign.text = content ∧
      cellsOf content = (segments content).tail.dropLast.map Text.trim ∧
      (cellsOf content).length = (signs content).countP Sign.isBar - 1) ∧
    ∀ values, cellsOf (write values) = values.map Text.trim ∧
      ((∀ value ∈ values, Text.trim value = value) → cellsOf (write values) = values) := by
  constructor
  · intro content
    have between : cellsOf content = (segments content).tail.dropLast.map Text.trim :=
      cellsFrom_eq_segments false [] content
    refine ⟨flatMap_text_signs content, between, ?_⟩
    rw [between, List.length_map, List.length_dropLast, List.length_tail, length_segments]
    omega
  · intro values
    exact ⟨cellsOf_write values, cellsOf_write_of_trimmed⟩

/-- A bar behind two backslashes closes a cell, and a newline that was decoded is trimmed like any other
blank. -/
theorem cells_stand_between_bars_with_escapes :
    let content := "x | a \\| b | \\\\| \\n c \\q | y\\".toList
    let values := ["a | b".toList, "\\".toList, "c \\q".toList]
    (signs content).countP Sign.isBar = 4 ∧
      (segments content).tail.dropLast =
        [" a | b ".toList, " \\".toList, " \n c \\q ".toList] ∧
      cellsOf content = values ∧ (∀ value ∈ values, Text.trim value = value) ∧
      cellsOf (write values) = values := by
  intro content values
  have between := (cells_stand_between_bars.1 content).2.1
  have parts : (segments content).tail.dropLast =
      [" a | b ".toList, " \\".toList, " \n c \\q ".toList] := by
    decide
  have trimmed : ∀ value ∈ values, Text.trim value = value := by decide
  rw [parts] at between
  exact ⟨by decide, parts, between, trimmed, (cells_stand_between_bars.2 values).2 trimmed⟩

end FeatureLint.Row
