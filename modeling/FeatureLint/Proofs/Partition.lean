import FeatureLint.Proofs.Lines

/-!
This file says how the line reader cuts a source into lines. Beside the reader stand the whole lines of a
text, each with the newline that ends it. Main statement: the reader takes the whole lines of its source one
after the other, what it has not read yet is the source without the lines it has read, and the content of
each line stands in the source inside the bytes of its whole line.
-/

namespace FeatureLint

namespace Text

/-- These are the lines of a text, each with the newline that ends it. The last line may have none. -/
def wholeLines : Text → List Text
  | [] => []
  | character :: rest =>
      if character = '\n' then [character] :: wholeLines rest
      else
        match wholeLines rest with
        | [] => [[character]]
        | line :: lines => (character :: line) :: lines

/-- A text that is not empty has a first line and the lines of what follows. -/
theorem wholeLines_of_ne_nil {text : Text} (present : text ≠ []) :
    wholeLines text = firstLine text :: wholeLines (afterFirstLine text) := by
  induction text with
  | nil => contradiction
  | cons character rest inductionHypothesis =>
      by_cases newline : character = '\n'
      · simp [wholeLines, firstLine, afterFirstLine, newline]
      · by_cases last : rest = []
        · simp [wholeLines, firstLine, afterFirstLine, newline, last]
        · simp [wholeLines, firstLine, afterFirstLine, newline, inductionHypothesis last]

/-- The whole lines make up the text. -/
theorem flatten_wholeLines (text : Text) : (wholeLines text).flatten = text := by
  induction text using line_induction with
  | nil => rfl
  | line text present inductionHypothesis =>
      rw [wholeLines_of_ne_nil present, List.flatten_cons, inductionHypothesis,
        firstLine_append_afterFirstLine]

/-- A first line ends with its only newline, or it has none and nothing follows it. -/
theorem exists_body_firstLine (text : Text) :
    ∃ body, '\n' ∉ body ∧
      (firstLine text = body ++ ['\n'] ∨ firstLine text = body ∧ afterFirstLine text = []) := by
  induction text with
  | nil => exact ⟨[], List.not_mem_nil, Or.inr ⟨rfl, rfl⟩⟩
  | cons character rest inductionHypothesis =>
      by_cases newline : character = '\n'
      · exact ⟨[], List.not_mem_nil, Or.inl (by simp [firstLine, newline])⟩
      · obtain ⟨body, bare, ended⟩ := inductionHypothesis
        have stillBare : '\n' ∉ character :: body :=
          List.not_mem_cons_of_ne_of_not_mem (Ne.symm newline) bare
        exact ⟨character :: body, stillBare, by simpa [firstLine, afterFirstLine, newline] using ended⟩

/-- A newline can only stand at the end of a line. -/
theorem newline_not_mem_dropLast_firstLine (text : Text) : '\n' ∉ (firstLine text).dropLast := by
  obtain ⟨body, bare, ended | ⟨whole, -⟩⟩ := exists_body_firstLine text
  · rwa [ended, List.dropLast_concat]
  · rw [whole]
    intro member
    exact bare (List.dropLast_subset body member)

/-- A line that something follows ends with a newline. -/
theorem getLast?_firstLine {text : Text} (more : afterFirstLine text ≠ []) :
    (firstLine text).getLast? = some '\n' := by
  obtain ⟨body, -, ended | ⟨-, exhausted⟩⟩ := exists_body_firstLine text
  · rw [ended, List.getLast?_concat]
  · contradiction

theorem wholeLines_eq_nil_iff (text : Text) : wholeLines text = [] ↔ text = [] := by
  constructor
  · intro none
    rw [← flatten_wholeLines text, none, List.flatten_nil]
  · intro empty
    rw [empty, wholeLines]

/-- No line is empty, and a newline can only stand at its end. -/
theorem wholeLine_of_mem {text raw : Text} (member : raw ∈ wholeLines text) :
    raw ≠ [] ∧ '\n' ∉ raw.dropLast := by
  induction text using line_induction with
  | nil => contradiction
  | line text present inductionHypothesis =>
      rw [wholeLines_of_ne_nil present, List.mem_cons] at member
      rcases member with rfl | later
      · exact ⟨firstLine_ne_nil present, newline_not_mem_dropLast_firstLine text⟩
      · exact inductionHypothesis later

/-- All lines but the last end with a newline. -/
theorem getLast?_of_mem_dropLast_wholeLines {text raw : Text}
    (member : raw ∈ (wholeLines text).dropLast) : raw.getLast? = some '\n' := by
  induction text using line_induction with
  | nil => contradiction
  | line text present inductionHypothesis =>
      by_cases exhausted : afterFirstLine text = []
      · rw [wholeLines_of_ne_nil present, exhausted, wholeLines] at member
        contradiction
      · rw [wholeLines_of_ne_nil present,
          List.dropLast_cons_of_ne_nil (mt (wholeLines_eq_nil_iff _).1 exhausted), List.mem_cons] at member
        rcases member with rfl | later
        · exact getLast?_firstLine exhausted
        · exact inductionHypothesis later

/-- The blanks of a text that holds nothing else all stand in front. -/
theorem trimStart_eq_nil_of_trim {text : Text} (blank : trim text = []) : trimStart text = [] := by
  obtain ⟨back, whole, backBlank⟩ := exists_append_trim text
  rw [blank, List.append_nil] at whole
  apply List.dropWhile_eq_nil_iff.2
  intro character member
  rw [whole, List.mem_append] at member
  rcases member with inFront | behind
  · exact List.mem_takeWhile_imp inFront
  · exact backBlank character behind

theorem byteLength_pos {text : Text} (present : text ≠ []) : 0 < byteLength text := by
  obtain ⟨character, rest, rfl⟩ := List.exists_cons_of_ne_nil present
  have positive := character.utf8Size_pos
  rw [byteLength_cons]
  omega

end Text

namespace Line

/-- A line covers a whole line of a source that comes after the given ones. -/
structure Covers (source : Text) (before : List Text) (raw : Text) (line : Line) : Prop where
  number : line.number = before.length + 1
  content : line.content = Text.trim raw
  slice : Text.slice? source line.span = some line.content
  start : Text.byteLength before.flatten ≤ line.span.start
  stop : line.span.stop ≤ Text.byteLength (before ++ [raw]).flatten
  /-- The span of a blank line is empty and stands behind its blanks. -/
  blank : line.isBlank = true →
    line.span.start = Text.byteLength (before ++ [raw]).flatten ∧ line.span.stop = line.span.start

/-- The span of a line lies inside the bytes of the whole line. -/
theorem read_span_within (number offset : Nat) (raw : Text) :
    offset ≤ (read number offset raw).span.start ∧
      (read number offset raw).span.stop ≤ offset + Text.byteLength raw := by
  obtain ⟨back, whole, -⟩ := Text.exists_append_trim raw
  have lengths := congrArg Text.byteLength whole
  rw [Text.byteLength_append, Text.byteLength_append] at lengths
  rw [read_span]
  constructor
  · show offset ≤ offset + Text.byteLength (Text.indentation raw)
    omega
  · show offset + Text.byteLength (Text.indentation raw) + Text.byteLength (Text.trim raw) ≤ _
    omega

/-- The span of a blank line is empty and stands at its end. -/
theorem read_span_of_isBlank {number offset : Nat} {raw : Text}
    (blank : (read number offset raw).isBlank = true) :
    (read number offset raw).span =
      ⟨offset + Text.byteLength raw, offset + Text.byteLength raw⟩ := by
  rw [isBlank, read_content, List.isEmpty_iff] at blank
  have whole := Text.indentation_append_trimStart raw
  rw [Text.trimStart_eq_nil_of_trim blank, List.append_nil] at whole
  rw [read_span, whole, blank, Text.byteLength_nil, Nat.add_zero]

end Line

namespace LineReader

/-- While something is left, a reader reads one line more. -/
theorem next?_of_ne_nil {reader : LineReader} (present : reader.rest ≠ []) :
    reader.next? =
      some (Line.read (reader.number + 1) reader.offset (Text.firstLine reader.rest),
        ⟨Text.afterFirstLine reader.rest,
          reader.offset + Text.byteLength (Text.firstLine reader.rest), reader.number + 1⟩) := by
  obtain ⟨character, rest, found⟩ := List.exists_cons_of_ne_nil present
  simp only [next?, found]

theorem next?_of_nil {reader : LineReader} (exhausted : reader.rest = []) : reader.next? = none := by
  simp only [next?, exhausted]

/-- This function reads the given number of lines and fails when there are fewer. -/
def advance? : (count : Nat) → LineReader → Option LineReader
  | 0, reader => some reader
  | count + 1, reader => reader.next?.bind fun step => step.2.advance? count

/-- One more line is read by the reader that stands behind the lines before it. -/
theorem advance?_succ (count : Nat) (reader : LineReader) :
    reader.advance? (count + 1) =
      (reader.advance? count).bind fun ahead => ahead.next?.map Prod.snd := by
  induction count generalizing reader with
  | zero =>
      rw [advance?, advance?, Option.bind_some, Option.map_eq_bind]
      rfl
  | succ count inductionHypothesis =>
      rw [advance?, advance?, Option.bind_assoc]
      congr 1
      funext step
      exact inductionHypothesis step.2

/-- A line is what the reader reads after the lines before it. -/
theorem getElem?_lines (count : Nat) (reader : LineReader) :
    reader.lines[count]? = (reader.advance? count).bind fun ahead => ahead.next?.map Prod.fst := by
  induction count generalizing reader with
  | zero =>
      rw [lines, advance?, Option.bind_some]
      split
      · next exhausted => rw [exhausted]; rfl
      · next line after found => rw [found]; rfl
  | succ count inductionHypothesis =>
      rw [lines, advance?, Option.bind_assoc]
      split
      · next exhausted => rw [exhausted]; rfl
      · next line after found =>
          rw [found, List.getElem?_cons_succ, inductionHypothesis, Option.bind_some]

/-- A reader has taken some lines of a source when the source is these lines and what the reader has not
read yet. -/
structure HasTaken (source : Text) (taken : List Text) (reader : LineReader) : Prop where
  split : source = taken.flatten ++ reader.rest
  offset : reader.offset = Text.byteLength taken.flatten
  number : reader.number = taken.length

theorem hasTaken_start (source : Text) : (start source).HasTaken source [] :=
  ⟨rfl, rfl, rfl⟩

/-- What is unread is what stands at the offset of the reader. -/
theorem HasTaken.remainder {source : Text} {taken : List Text} {reader : LineReader}
    (state : reader.HasTaken source taken) :
    Text.dropBytes? reader.offset source = some reader.rest := by
  rw [state.offset, state.split, Text.dropBytes?_append]

/-- One step takes the first of the lines that are left. -/
theorem HasTaken.next {source raw : Text} {taken left : List Text} {reader : LineReader}
    (state : reader.HasTaken source taken)
    (unread : Text.wholeLines reader.rest = raw :: left) :
    ∃ after, reader.next? = some (Line.read (taken.length + 1)
        (Text.byteLength taken.flatten) raw, after) ∧
      after.HasTaken source (taken ++ [raw]) ∧ Text.wholeLines after.rest = left := by
  have present : reader.rest ≠ [] := by
    intro exhausted
    rw [exhausted, Text.wholeLines] at unread
    contradiction
  have first := Text.wholeLines_of_ne_nil present
  rw [unread, List.cons.injEq] at first
  obtain ⟨rfl, rfl⟩ := first
  have parts := Text.firstLine_append_afterFirstLine reader.rest
  have step := next?_of_ne_nil present
  rw [state.number, state.offset] at step
  refine ⟨_, step, ⟨?_, ?_, ?_⟩, rfl⟩
  · rw [List.flatten_append, List.flatten_singleton, List.append_assoc, parts]
    exact state.split
  · rw [List.flatten_append, List.flatten_singleton, Text.byteLength_append]
  · rw [List.length_append, List.length_singleton]

/-- A run takes as many of the lines that are left as it is asked for. -/
theorem HasTaken.exists_advance? {source : Text} {taken : List Text} {reader : LineReader}
    (state : reader.HasTaken source taken) (more left : List Text)
    (unread : Text.wholeLines reader.rest = more ++ left) :
    ∃ after, reader.advance? more.length = some after ∧
      after.HasTaken source (taken ++ more) ∧ Text.wholeLines after.rest = left := by
  induction more generalizing reader taken with
  | nil =>
      rw [List.append_nil]
      exact ⟨reader, rfl, state, unread⟩
  | cons raw more inductionHypothesis =>
      obtain ⟨next, step, nextState, nextUnread⟩ := state.next unread
      obtain ⟨after, run, afterState, afterUnread⟩ := inductionHypothesis nextState nextUnread
      rw [List.append_assoc] at afterState
      refine ⟨after, ?_, afterState, afterUnread⟩
      rw [List.length_cons, advance?, step, Option.bind_some, run]

/-- There are as many lines as whole lines. -/
theorem length_lines (reader : LineReader) :
    reader.lines.length = (Text.wholeLines reader.rest).length := by
  obtain ⟨text, offset, number⟩ := reader
  induction text using Text.line_induction generalizing offset number with
  | nil => rw [lines_of_nil, Text.wholeLines]; rfl
  | line text present inductionHypothesis =>
      rw [lines_of_ne_nil present, Text.wholeLines_of_ne_nil present, List.length_cons,
        inductionHypothesis, List.length_cons]

/-- No line starts before the place where the reader stands. -/
theorem le_start_of_mem_lines {text : Text} {offset number : Nat} {line : Line}
    (member : line ∈ lines ⟨text, offset, number⟩) : offset ≤ line.span.start := by
  induction text using Text.line_induction generalizing offset number with
  | nil => simp [lines_of_nil] at member
  | line text present inductionHypothesis =>
      rw [lines_of_ne_nil present, List.mem_cons] at member
      rcases member with rfl | later
      · exact (Line.read_span_within _ _ _).1
      · have bound := inductionHypothesis later
        omega

/-- Every line ends before the next one starts. -/
theorem pairwise_span_lines (text : Text) (offset number : Nat) :
    (lines ⟨text, offset, number⟩).Pairwise fun first second =>
      first.span.stop ≤ second.span.start := by
  induction text using Text.line_induction generalizing offset number with
  | nil => rw [lines_of_nil]; exact List.Pairwise.nil
  | line text present inductionHypothesis =>
      rw [lines_of_ne_nil present, List.pairwise_cons]
      constructor
      · intro later member
        have within := (Line.read_span_within (number + 1) offset (Text.firstLine text)).2
        have bound := le_start_of_mem_lines member
        omega
      · exact inductionHypothesis _ _

end LineReader

namespace Line

/-- A line covers its raw line in the source, without the blanks around. -/
theorem covers_read {source raw : Text} {before : List Text}
    (member : read (before.length + 1) (Text.byteLength before.flatten) raw ∈ ofSource source) :
    (read (before.length + 1) (Text.byteLength before.flatten) raw).Covers source before raw := by
  have whole : Text.byteLength (before ++ [raw]).flatten =
      Text.byteLength before.flatten + Text.byteLength raw := by
    rw [List.flatten_append, List.flatten_singleton, Text.byteLength_append]
  have within := read_span_within (before.length + 1) (Text.byteLength before.flatten) raw
  constructor
  · rw [read_eq_ofContent, ofContent_number]
  · exact read_content _ _ _
  · exact slice?_of_mem_ofSource member
  · exact within.1
  · rw [whole]
    exact within.2
  · intro blank
    rw [read_span_of_isBlank blank, whole]
    exact ⟨rfl, rfl⟩

/-- The reader that has taken the lines before a whole line reads a line that covers it. -/
theorem exists_covers {source raw : Text} {before behind : List Text}
    (split : Text.wholeLines source = before ++ raw :: behind) :
    ∃ reader line after,
      (LineReader.start source).advance? before.length = some reader ∧
      reader.next? = some (line, after) ∧
      (LineReader.start source).advance? (before.length + 1) = some after ∧
      Text.byteLength after.rest < Text.byteLength reader.rest ∧
      (ofSource source)[before.length]? = some line ∧ line.Covers source before raw := by
  obtain ⟨reader, run, state, unread⟩ :=
    (LineReader.hasTaken_start source).exists_advance? before (raw :: behind) split
  rw [List.nil_append] at state
  obtain ⟨after, step, afterState, -⟩ := state.next unread
  have longer : (LineReader.start source).advance? (before.length + 1) = some after := by
    rw [LineReader.advance?_succ, run, Option.bind_some, step, Option.map_some]
  have listed : (ofSource source)[before.length]? =
      some (read (before.length + 1) (Text.byteLength before.flatten) raw) := by
    rw [ofSource, LineReader.getElem?_lines, run, Option.bind_some, step, Option.map_some]
  have shorter : Text.byteLength after.rest < Text.byteLength reader.rest := by
    have present : raw ≠ [] := (Text.wholeLine_of_mem (unread ▸ List.mem_cons_self)).1
    have positive := Text.byteLength_pos present
    have parts := congrArg Text.byteLength (state.split.symm.trans afterState.split)
    rw [List.flatten_append, List.flatten_singleton, Text.byteLength_append, Text.byteLength_append,
      Text.byteLength_append] at parts
    omega
  exact ⟨reader, _, after, run, step, longer, shorter, listed,
    covers_read (List.mem_of_getElem? listed)⟩

/-- The lines of a source partition it. The whole lines make up the source, and each is ended by its only
newline or is the last one. After any number of lines, what is left to be read stands at the offset of the
reader and is the source without the whole lines before it. Each step takes one whole line, reads a line that
covers it and leaves less, until nothing is left. No line ends behind the start of a later one. -/
theorem lines_partition_source (source : Text) :
    (Text.wholeLines source).flatten = source ∧
    (∀ raw ∈ Text.wholeLines source, raw ≠ [] ∧ '\n' ∉ raw.dropLast) ∧
    (∀ raw ∈ (Text.wholeLines source).dropLast, raw.getLast? = some '\n') ∧
    (∀ count ≤ (Text.wholeLines source).length, ∃ reader,
      (LineReader.start source).advance? count = some reader ∧
      reader.rest = ((Text.wholeLines source).drop count).flatten ∧
      Text.dropBytes? reader.offset source = some reader.rest) ∧
    (∀ before raw behind, Text.wholeLines source = before ++ raw :: behind →
      ∃ reader line after,
        (LineReader.start source).advance? before.length = some reader ∧
        reader.next? = some (line, after) ∧
        (LineReader.start source).advance? (before.length + 1) = some after ∧
        Text.byteLength after.rest < Text.byteLength reader.rest ∧
        (ofSource source)[before.length]? = some line ∧ line.Covers source before raw) ∧
    (LineReader.start source).advance? ((Text.wholeLines source).length + 1) = none ∧
    (ofSource source).length = (Text.wholeLines source).length ∧
    (ofSource source).Pairwise fun first second => first.span.stop ≤ second.span.start := by
  have behind (count : Nat) (within : count ≤ (Text.wholeLines source).length) : ∃ reader,
      (LineReader.start source).advance? count = some reader ∧
      reader.rest = ((Text.wholeLines source).drop count).flatten ∧
      Text.dropBytes? reader.offset source = some reader.rest := by
    obtain ⟨reader, run, state, unread⟩ := (LineReader.hasTaken_start source).exists_advance?
      ((Text.wholeLines source).take count) ((Text.wholeLines source).drop count)
      (List.take_append_drop _ _).symm
    rw [List.length_take, Nat.min_eq_left within] at run
    rw [← unread, Text.flatten_wholeLines]
    exact ⟨reader, run, rfl, state.remainder⟩
  have ends : (LineReader.start source).advance? ((Text.wholeLines source).length + 1) = none := by
    obtain ⟨reader, run, exhausted, -⟩ := behind _ (Nat.le_refl _)
    rw [List.drop_length, List.flatten_nil] at exhausted
    rw [LineReader.advance?_succ, run, Option.bind_some, LineReader.next?_of_nil exhausted, Option.map_none]
  exact ⟨Text.flatten_wholeLines source, fun raw => Text.wholeLine_of_mem,
    fun raw => Text.getLast?_of_mem_dropLast_wholeLines, behind,
    fun before raw after => exists_covers, ends, LineReader.length_lines _,
    LineReader.pairwise_span_lines source 0 0⟩

/-- The second line has nothing but blanks of one and of two bytes, and its span stands at its end. The first
line has blanks of three bytes around it, and the last one has no newline. -/
theorem lines_partition_source_with_wide_blanks :
    let first := "\u3000Feature: é\u2003\r\n".toList
    let second := " \u00a0\n".toList
    let third := "| x |".toList
    let source := first ++ second ++ third
    Text.wholeLines source = [first] ++ second :: [third] ∧
      ∃ reader line after,
        (LineReader.start source).advance? 1 = some reader ∧ reader.next? = some (line, after) ∧
        (LineReader.start source).advance? 2 = some after ∧ (ofSource source)[1]? = some line ∧
        line.number = 2 ∧ line.content = [] ∧ line.span = ⟨23, 23⟩ ∧
        Text.slice? source line.span = some [] := by
  intro first second third source
  have split : Text.wholeLines source = [first] ++ second :: [third] := by decide
  obtain ⟨-, -, -, -, steps, -⟩ := lines_partition_source source
  obtain ⟨reader, line, after, run, step, longer, -, listed, covers⟩ := steps [first] second [third] split
  have content : line.content = [] := covers.content.trans (by decide)
  have blank := covers.blank (by rw [isBlank, content, List.isEmpty_nil])
  have stands : Text.byteLength ([first] ++ [second]).flatten = 23 := by decide
  have span : line.span = ⟨23, 23⟩ := by
    rw [Span.mk.injEq, blank.2, blank.1, stands]
    exact ⟨rfl, rfl⟩
  refine ⟨split, reader, line, after, run, step, longer, listed, covers.number, content, span, ?_⟩
  rw [covers.slice, content]

end Line

end FeatureLint
