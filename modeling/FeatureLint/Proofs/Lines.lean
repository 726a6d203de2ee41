import FeatureLint.Line
import Mathlib.Data.List.DropRight

/-!
This file says what the lines of a source are. Main statements: the lines are numbered from one on,
each line is classified by its content alone, the span of a line is where its content stands in the
source, contents and texts are trimmed and hold no newline, and the first lines of a source are the
lines of the source cut after them.
-/

namespace FeatureLint

namespace Text

theorem isBlank_newline : isBlank '\n' = true := rfl

/-- Blanks in front of a text are trimmed. -/
theorem trimStart_append_of_blank {front : Text} (blank : ∀ character ∈ front, isBlank character = true)
    (text : Text) : trimStart (front ++ text) = trimStart text :=
  List.dropWhile_append_of_pos blank

/-- Blanks behind a text are trimmed. -/
theorem trimEnd_append_of_blank (text : Text) {back : Text}
    (blank : ∀ character ∈ back, isBlank character = true) : trimEnd (text ++ back) = trimEnd text := by
  have reversed : ∀ character ∈ back.reverse, isBlank character = true :=
    fun character member => blank character (List.mem_reverse.1 member)
  rw [trimEnd, List.reverse_append, List.dropWhile_append_of_pos reversed, trimEnd]

theorem trimEnd_eq_nil {text : Text} (blank : ∀ character ∈ text, isBlank character = true) :
    trimEnd text = [] :=
  trimEnd_append_of_blank [] blank

/-- Blanks around a text do not change what is left after trimming. -/
theorem trim_append_of_blank {front back : Text}
    (frontBlank : ∀ character ∈ front, isBlank character = true)
    (backBlank : ∀ character ∈ back, isBlank character = true) (text : Text) :
    trim (front ++ text ++ back) = trim text := by
  rw [List.append_assoc, trim, trimStart_append_of_blank frontBlank, trim, trimStart,
    List.dropWhile_append]
  split
  · next empty =>
      rw [List.isEmpty_iff] at empty
      rw [trimStart, empty]
      exact trimEnd_eq_nil fun character member =>
        backBlank character (List.dropWhile_subset _ member)
  · exact trimEnd_append_of_blank _ backBlank

/-- A text is what trimming leaves of it, with the blanks in front and behind. -/
theorem exists_append_trim (text : Text) :
    ∃ back, text = indentation text ++ trim text ++ back ∧
      ∀ character ∈ back, isBlank character = true := by
  refine ⟨(trimStart text).rtakeWhile isBlank, ?_, fun _ => List.mem_rtakeWhile_imp⟩
  have split : trim text ++ (trimStart text).rtakeWhile isBlank = trimStart text :=
    List.rdropWhile_append_rtakeWhile
  rw [List.append_assoc, split, indentation_append_trimStart]

/-- Trimming adds no characters. -/
theorem trim_subset (text : Text) : trim text ⊆ text := by
  intro character member
  obtain ⟨back, whole, -⟩ := exists_append_trim text
  rw [whole]
  exact List.mem_append_left _ (List.mem_append_right _ member)

/-- Trimming leaves no blank at either end. -/
theorem ends_trim (text : Text) :
    (∀ character ∈ (trim text).head?, isBlank character = false) ∧
      ∀ character ∈ (trim text).getLast?, isBlank character = false := by
  constructor
  · intro character member
    obtain ⟨back, whole⟩ : trim text <+: trimStart text := List.rdropWhile_prefix _ _
    have first := List.head?_dropWhile_not isBlank text
    rw [← trimStart, ← whole, List.head?_append, member] at first
    exact first
  · intro character member
    obtain ⟨present, same⟩ := List.mem_getLast?_eq_getLast member
    rw [same]
    exact Bool.eq_false_iff.2 (List.rdropWhile_last_not isBlank (trimStart text) present)

/-- A text is trimmed when it neither starts nor ends with a blank. -/
theorem trim_eq_self_iff (text : Text) :
    trim text = text ↔
      (∀ character ∈ text.head?, isBlank character = false) ∧
        ∀ character ∈ text.getLast?, isBlank character = false := by
  constructor
  · intro trimmed
    exact trimmed ▸ ends_trim text
  · intro ends
    obtain ⟨first, last⟩ := ends
    have startStays : trimStart text = text := by
      refine List.dropWhile_eq_self_iff.2 fun inside => ?_
      rw [first _ (List.head?_eq_getElem? ▸ List.getElem?_eq_getElem inside)]
      exact Bool.false_ne_true
    rw [trim, startStays]
    refine List.rdropWhile_eq_self_iff.2 fun present => ?_
    rw [last _ (List.getLast?_eq_some_getLast present)]
    exact Bool.false_ne_true

@[simp] theorem trim_trim (text : Text) : trim (trim text) = trim text :=
  (trim_eq_self_iff _).2 (ends_trim text)

/-- This function drops the given number of bytes and fails when they end inside a character. -/
def dropBytes? : (bytes : Nat) → Text → Option Text
  | 0, text => some text
  | _ + 1, [] => none
  | bytes + 1, character :: text =>
      if character.utf8Size ≤ bytes + 1 then dropBytes? (bytes + 1 - character.utf8Size) text
      else none

/-- This function keeps the given number of bytes and fails when they end inside a character. -/
def takeBytes? : (bytes : Nat) → Text → Option Text
  | 0, _ => some []
  | _ + 1, [] => none
  | bytes + 1, character :: text =>
      if character.utf8Size ≤ bytes + 1 then
        (takeBytes? (bytes + 1 - character.utf8Size) text).map (character :: ·)
      else none

/-- This is the part of a text at the bytes of a span. -/
def slice? (text : Text) (span : Span) : Option Text :=
  if span.start ≤ span.stop then (dropBytes? span.start text).bind (takeBytes? span.length)
  else none

/-- The first character of a text takes a part of its bytes. -/
theorem exists_byteLength_cons (character : Char) (text : Text) :
    ∃ bytes, byteLength (character :: text) = bytes + 1 ∧
      bytes + 1 - character.utf8Size = byteLength text ∧ character.utf8Size ≤ bytes + 1 := by
  have positive := character.utf8Size_pos
  refine ⟨byteLength (character :: text) - 1, ?_⟩
  rw [byteLength_cons]
  omega

/-- Dropping the bytes of the front leaves the rest. -/
theorem dropBytes?_append (front text : Text) :
    dropBytes? (byteLength front) (front ++ text) = some text := by
  induction front with
  | nil => rw [byteLength_nil, dropBytes?, List.nil_append]
  | cons character front inductionHypothesis =>
      obtain ⟨bytes, whole, left, fits⟩ := exists_byteLength_cons character front
      rw [whole, List.cons_append, dropBytes?, if_pos fits, left, inductionHypothesis]

/-- Taking the bytes of the front gives the front. -/
theorem takeBytes?_append (front text : Text) :
    takeBytes? (byteLength front) (front ++ text) = some front := by
  induction front with
  | nil => rw [byteLength_nil, takeBytes?]
  | cons character front inductionHypothesis =>
      obtain ⟨bytes, whole, left, fits⟩ := exists_byteLength_cons character front
      rw [whole, List.cons_append, takeBytes?, if_pos fits, left, inductionHypothesis,
        Option.map_some]

/-- A part of a text stands at the bytes between what is before it and what is after it. -/
theorem slice?_append (front content back : Text) :
    slice? (front ++ content ++ back) ⟨byteLength front, byteLength front + byteLength content⟩ =
      some content := by
  rw [slice?, if_pos (Nat.le_add_right _ _), List.append_assoc, dropBytes?_append, Option.bind_some,
    Span.length, Nat.add_sub_cancel_left, takeBytes?_append]

/-- This is a text cut after the given number of lines. -/
def firstLines : (count : Nat) → Text → Text
  | 0, _ => []
  | count + 1, text => firstLine text ++ firstLines count (afterFirstLine text)

@[simp] theorem firstLines_nil (count : Nat) : firstLines count [] = [] := by
  induction count with
  | zero => rfl
  | succ count inductionHypothesis => exact inductionHypothesis

/-- The cut does not change the first line, even where the text ends without a newline. -/
theorem firstLine_firstLines (count : Nat) (text : Text) :
    firstLine (firstLines (count + 1) text) = firstLine text ∧
      afterFirstLine (firstLines (count + 1) text) = firstLines count (afterFirstLine text) := by
  rw [firstLines]
  induction text with
  | nil => simp [firstLine, afterFirstLine]
  | cons character text inductionHypothesis =>
      by_cases newline : character = '\n'
      · simp [firstLine, afterFirstLine, newline]
      · simpa [firstLine, afterFirstLine, newline] using inductionHypothesis

/-- A text that is not empty has a first line. -/
theorem firstLine_ne_nil {text : Text} (present : text ≠ []) : firstLine text ≠ [] := by
  obtain ⟨character, rest, rfl⟩ := List.exists_cons_of_ne_nil present
  by_cases newline : character = '\n' <;> simp [firstLine, newline]

/-- What holds of the empty text and goes from the rest of a text to the text holds of all texts. -/
theorem line_induction {motive : Text → Prop} (nil : motive [])
    (line : ∀ text, text ≠ [] → motive (afterFirstLine text) → motive text) (text : Text) :
    motive text := by
  by_cases present : text = []
  · exact present ▸ nil
  · exact line text present (line_induction nil line (afterFirstLine text))
termination_by text.length
decreasing_by
  obtain ⟨character, rest, rfl⟩ := List.exists_cons_of_ne_nil present
  exact length_afterFirstLine_lt character rest

/-- A first line has no newline but the one that ends it. -/
theorem exists_firstLine (text : Text) :
    ∃ body back, firstLine text = body ++ back ∧ '\n' ∉ body ∧
      ∀ character ∈ back, isBlank character = true := by
  induction text with
  | nil => exact ⟨[], [], rfl, List.not_mem_nil, List.forall_mem_nil _⟩
  | cons character text inductionHypothesis =>
      by_cases newline : character = '\n'
      · refine ⟨[], ['\n'], by simp [firstLine, newline], List.not_mem_nil, ?_⟩
        exact List.forall_mem_singleton.2 isBlank_newline
      · obtain ⟨body, back, split, bare, blank⟩ := inductionHypothesis
        refine ⟨character :: body, back, by simp [firstLine, newline, split], ?_, blank⟩
        exact List.not_mem_cons_of_ne_of_not_mem (Ne.symm newline) bare

/-- No newline is left when a line is trimmed. -/
theorem newline_not_mem_trim_firstLine (text : Text) : '\n' ∉ trim (firstLine text) := by
  obtain ⟨body, back, split, bare, blank⟩ := exists_firstLine text
  have same := trim_append_of_blank (List.forall_mem_nil _) blank body
  rw [List.nil_append] at same
  rw [split, same]
  exact fun member => bare (trim_subset body member)

end Text

/-- A keyword is only read where one of its spellings stands. -/
theorem Keyword.exists_spelling {content rest : Text} {keyword : Keyword}
    (found : read? content = some (keyword, rest)) :
    ∃ spelling, (spelling, keyword) ∈ spellings ∧ content = spelling ++ rest := by
  obtain ⟨⟨spelling, other⟩, member, read⟩ := List.exists_of_findSome?_eq_some found
  obtain ⟨after, split, same⟩ := Option.map_eq_some_iff.1 read
  cases same
  exact ⟨spelling, member, (Text.afterLead?_eq_some_iff _ _ _).1 split⟩

namespace Line

/-- A line is classified by its content alone. -/
def ofContent (number : Nat) (content : Text) (span : Span) : Line :=
  match Keyword.read? content with
  | some (keyword, rest) => ⟨number, some keyword, content, Text.trim rest, span⟩
  | none => ⟨number, none, content, content, span⟩

@[simp] theorem ofContent_number (number : Nat) (content : Text) (span : Span) :
    (ofContent number content span).number = number := by
  unfold ofContent
  split <;> rfl

@[simp] theorem ofContent_content (number : Nat) (content : Text) (span : Span) :
    (ofContent number content span).content = content := by
  unfold ofContent
  split <;> rfl

@[simp] theorem ofContent_span (number : Nat) (content : Text) (span : Span) :
    (ofContent number content span).span = span := by
  unfold ofContent
  split <;> rfl

/-- A raw line is classified by its trimmed content. -/
theorem read_eq_ofContent (number offset : Nat) (raw : Text) :
    read number offset raw = ofContent number (Text.trim raw)
      ⟨offset + (Text.byteLength raw - Text.byteLength (Text.trimStart raw)),
        offset + (Text.byteLength raw - Text.byteLength (Text.trimStart raw)) +
          Text.byteLength (Text.trim raw)⟩ := rfl

theorem read_content (number offset : Nat) (raw : Text) :
    (read number offset raw).content = Text.trim raw := by
  rw [read_eq_ofContent, ofContent_content]

/-- The content of a line starts behind its indentation. -/
theorem read_span (number offset : Nat) (raw : Text) :
    (read number offset raw).span =
      ⟨offset + Text.byteLength (Text.indentation raw),
        offset + Text.byteLength (Text.indentation raw) + Text.byteLength (Text.trim raw)⟩ := by
  have lengths := congrArg Text.byteLength (Text.indentation_append_trimStart raw)
  rw [Text.byteLength_append] at lengths
  have indented : Text.byteLength raw - Text.byteLength (Text.trimStart raw) =
      Text.byteLength (Text.indentation raw) := by
    omega
  rw [read_eq_ofContent, ofContent_span, indented]

/-- The text of a line is part of its content. -/
theorem ofContent_text_subset (number : Nat) (content : Text) (span : Span) :
    (ofContent number content span).text ⊆ content := by
  unfold ofContent
  split
  · next keyword rest found =>
      obtain ⟨spelling, -, rfl⟩ := Keyword.exists_spelling found
      exact List.Subset.trans (Text.trim_subset rest) (List.subset_append_right _ _)
  · exact List.Subset.refl _

/-- The text behind the keyword is trimmed. -/
theorem trim_ofContent_text (number : Nat) {content : Text} (span : Span)
    (trimmed : Text.trim content = content) :
    Text.trim (ofContent number content span).text = (ofContent number content span).text := by
  unfold ofContent
  split
  · exact Text.trim_trim _
  · exact trimmed

end Line

namespace LineReader

theorem lines_of_nil (offset number : Nat) : lines ⟨[], offset, number⟩ = [] := by
  rw [lines]
  rfl

/-- The lines of a text are its first line and the lines of what follows. -/
theorem lines_of_ne_nil {text : Text} (present : text ≠ []) (offset number : Nat) :
    lines ⟨text, offset, number⟩ =
      Line.read (number + 1) offset (Text.firstLine text) ::
        lines ⟨Text.afterFirstLine text, offset + Text.byteLength (Text.firstLine text),
          number + 1⟩ := by
  obtain ⟨character, rest, rfl⟩ := List.exists_cons_of_ne_nil present
  rw [lines]
  rfl

/-- Every line was read from the front of some rest of the source. -/
theorem exists_read_firstLine {text : Text} {offset number : Nat} {line : Line}
    (member : line ∈ lines ⟨text, offset, number⟩) :
    ∃ number offset text, line = Line.read number offset (Text.firstLine text) := by
  induction text using Text.line_induction generalizing offset number with
  | nil => simp [lines_of_nil] at member
  | line text present inductionHypothesis =>
      rw [lines_of_ne_nil present] at member
      rcases List.mem_cons.1 member with rfl | later
      · exact ⟨_, _, _, rfl⟩
      · exact inductionHypothesis later

/-- Lines are numbered one by one. -/
theorem map_number_lines (text : Text) (offset number : Nat) :
    (lines ⟨text, offset, number⟩).map Line.number =
      List.range' (number + 1) (lines ⟨text, offset, number⟩).length := by
  induction text using Text.line_induction generalizing offset number with
  | nil => simp [lines_of_nil]
  | line text present inductionHypothesis =>
      rw [lines_of_ne_nil present, List.map_cons, inductionHypothesis, List.length_cons,
        List.range'_succ, Line.read_eq_ofContent, Line.ofContent_number]

/-- The first lines of a text are the first of its lines. -/
theorem lines_firstLines (count : Nat) (text : Text) (offset number : Nat) :
    lines ⟨Text.firstLines count text, offset, number⟩ =
      (lines ⟨text, offset, number⟩).take count := by
  induction count generalizing text offset number with
  | zero => rw [Text.firstLines, lines_of_nil, List.take_zero]
  | succ count inductionHypothesis =>
      by_cases empty : text = []
      · rw [empty, Text.firstLines_nil, lines_of_nil, List.take_nil]
      · have cut : Text.firstLines (count + 1) text ≠ [] := by
          rw [Text.firstLines]
          exact List.append_ne_nil_of_left_ne_nil (Text.firstLine_ne_nil empty) _
        obtain ⟨sameLine, rest⟩ := Text.firstLine_firstLines count text
        rw [lines_of_ne_nil cut, lines_of_ne_nil empty, List.take_succ_cons, sameLine, rest,
          inductionHypothesis]

/-- The span of a line is where its content stands in the source. -/
theorem slice?_of_mem_lines {source front text : Text} {offset number : Nat} {line : Line}
    (whole : source = front ++ text) (started : offset = Text.byteLength front)
    (member : line ∈ lines ⟨text, offset, number⟩) :
    Text.slice? source line.span = some line.content := by
  induction text using Text.line_induction generalizing front offset number with
  | nil => simp [lines_of_nil] at member
  | line text present inductionHypothesis =>
      have split := Text.firstLine_append_afterFirstLine text
      rw [lines_of_ne_nil present] at member
      rcases List.mem_cons.1 member with rfl | later
      · obtain ⟨back, parts, -⟩ := Text.exists_append_trim (Text.firstLine text)
        have placed : source = front ++ Text.indentation (Text.firstLine text) ++
            Text.trim (Text.firstLine text) ++ (back ++ Text.afterFirstLine text) := by
          rw [whole]
          conv_lhs => rw [← split, parts]
          simp only [List.append_assoc]
        rw [Line.read_span, Line.read_content, started, ← Text.byteLength_append, placed]
        exact Text.slice?_append _ _ _
      · refine @inductionHypothesis (front ++ Text.firstLine text) _ _ ?_ ?_ later
        · rw [whole, List.append_assoc, split]
        · rw [started, Text.byteLength_append]

end LineReader

namespace Line

/-- Lines are counted from one. -/
theorem number_of_ofSource {source : Text} {before after : List Line} {line : Line}
    (split : ofSource source = before ++ line :: after) : line.number = before.length + 1 := by
  have numbers := LineReader.map_number_lines source 0 0
  have here := congrArg (fun numbers => numbers[before.length]?) numbers
  rw [show (LineReader.mk source 0 0).lines = before ++ line :: after from split] at here
  simpa [Nat.add_comm] using here

/-- No line has a number below one. -/
theorem one_le_number {source : Text} {line : Line} (member : line ∈ ofSource source) :
    1 ≤ line.number := by
  obtain ⟨before, after, split⟩ := List.append_of_mem member
  rw [number_of_ofSource split]
  exact Nat.le_add_left 1 before.length

/-- Later lines have larger numbers. -/
theorem pairwise_number_ofSource (source : Text) :
    (ofSource source).Pairwise fun first second => first.number < second.number := by
  have increasing := List.pairwise_lt_range' (s := 1) (n := (ofSource source).length)
  rwa [show List.range' 1 (ofSource source).length = _ from
    (LineReader.map_number_lines source 0 0).symm, List.pairwise_map] at increasing

/-- The first lines of a source are the first of its lines. -/
theorem ofSource_firstLines (count : Nat) (source : Text) :
    ofSource (Text.firstLines count source) = (ofSource source).take count :=
  LineReader.lines_firstLines count source 0 0

/-- The span of a line covers its content in the source. -/
theorem slice?_of_mem_ofSource {source : Text} {line : Line} (member : line ∈ ofSource source) :
    Text.slice? source line.span = some line.content :=
  LineReader.slice?_of_mem_lines (List.nil_append source).symm rfl member

/-- A line of a source is classified by its content, which is trimmed and holds no newline. -/
theorem ofContent_of_mem_ofSource {source : Text} {line : Line} (member : line ∈ ofSource source) :
    line = ofContent line.number line.content line.span ∧
      Text.trim line.content = line.content ∧ '\n' ∉ line.content := by
  obtain ⟨number, offset, text, rfl⟩ := LineReader.exists_read_firstLine member
  simp only [read_eq_ofContent, ofContent_number, ofContent_content, ofContent_span, Text.trim_trim,
    Text.newline_not_mem_trim_firstLine, not_false_eq_true, and_self]

/-- The text of a line is trimmed and stands on one line. -/
theorem text_of_mem_ofSource {source : Text} {line : Line} (member : line ∈ ofSource source) :
    Text.trim line.text = line.text ∧ '\n' ∉ line.text := by
  obtain ⟨classified, trimmed, bare⟩ := ofContent_of_mem_ofSource member
  rw [classified]
  exact ⟨trim_ofContent_text _ _ trimmed, fun inside => bare (ofContent_text_subset _ _ _ inside)⟩

end Line

end FeatureLint
