import FeatureLint.Toml.Statement
import Mathlib.Data.List.Basic

/-!
This file reads back the quoted texts and the keys of TOML that were written. A text is written in one of
four kinds of strings, and each kind has its own reason why the text cannot end too early: escapes, or no
mark at all, or fewer than three marks in a row. Main statements: a text that was written is read back,
whatever follows it, as long as no further mark follows, and so is a key.
-/

namespace FeatureLint.Toml

namespace Quoted

/-- Every hexadecimal digit is read back. -/
theorem hexValue?_upperHexDigit : ∀ digit < 16, hexValue? (upperHexDigit digit) = some digit := by
  decide

/-- The four digits of an escape are read back as its character. -/
theorem readHex?_upperHexDigits {number : Nat} (small : number < 256) (rest : Text) :
    readHex? 4 ('0' :: '0' :: upperHexDigit (number / 16) :: upperHexDigit (number % 16) :: rest) =
      some (Char.ofNat number, rest) := by
  have first := hexValue?_upperHexDigit (number / 16) (by omega)
  have second := hexValue?_upperHexDigit (number % 16) (by omega)
  have zero : hexValue? '0' = some 0 := rfl
  have whole : number / 16 * 16 + number % 16 = number := by omega
  have valid : number.isValidChar := Or.inl (by omega)
  simp [readHex?, zero, first, second, digitsValue, whole, valid]

/-- This is an escape that stands for a character and does not join two lines. -/
structure Escapes (after : Text) (character : Char) : Prop where
  meant : ∀ rest, readEscape? (after ++ rest) = some (character, rest)
  joinsNothing : ∀ rest, continued? (after ++ rest) = none

def shortEscaped : List Char :=
  ['\x08', '\t', '\x0c', '\r', '\\']

/-- The escapes of one letter are read back. -/
theorem exists_escapes_of_shortEscaped : ∀ character ∈ shortEscaped,
    ∃ after, escape character = '\\' :: after ∧ Escapes after character := by
  simp only [shortEscaped, List.forall_mem_cons]
  exact ⟨⟨['b'], rfl, fun _ => rfl, fun _ => rfl⟩, ⟨['t'], rfl, fun _ => rfl, fun _ => rfl⟩,
    ⟨['f'], rfl, fun _ => rfl, fun _ => rfl⟩, ⟨['r'], rfl, fun _ => rfl, fun _ => rfl⟩,
    ⟨['\\'], rfl, fun _ => rfl, fun _ => rfl⟩, List.forall_mem_nil _⟩

/-- Control characters have two hexadecimal digits at most. -/
theorem toNat_lt_of_isControl {character : Char} (control : isControl character = true) :
    character.toNat < 256 := by
  simp [isControl, isPrintable] at control
  omega

/-- A character is escaped by what is read as that character, or it may stand for itself. -/
theorem escape_cases (character : Char) :
    (∃ after, escape character = '\\' :: after ∧ Escapes after character) ∨
      (escape character = [character] ∧ character ≠ '\\' ∧ isPrintable character = true) := by
  by_cases short : character ∈ shortEscaped
  · exact Or.inl (exists_escapes_of_shortEscaped character short)
  simp only [shortEscaped, List.mem_cons, List.not_mem_nil, or_false, not_or] at short
  obtain ⟨backspace, tab, formFeed, carriageReturn, backslash⟩ := short
  rw [escape, if_neg backspace, if_neg tab, if_neg formFeed, if_neg carriageReturn, if_neg backslash]
  cases control : isControl character with
  | true =>
      refine Or.inl ⟨_, if_pos rfl, fun rest => ?_, fun rest => rfl⟩
      have read := readHex?_upperHexDigits (toNat_lt_of_isControl control) rest
      rwa [Char.ofNat_toNat] at read
  | false =>
      refine Or.inr ⟨if_neg Bool.false_ne_true, backslash, ?_⟩
      simpa [isControl] using control

/-- This puts a character in front of what was read. -/
def before (character : Char) : Text × Text → Text × Text :=
  fun (body, last) => (character :: body, last)

section Basic

variable {after : Text} {character : Char}

/-- An escape is read as one character of a basic string. -/
theorem readBasic?_escape (escapes : Escapes after character) (rest : Text) :
    readBasic? ('\\' :: (after ++ rest)) = (readBasic? rest).map (before character) := by
  have meant := escapes.meant rest
  rw [readBasic?, if_neg (by decide), if_pos rfl]
  split
  · next read =>
      rw [meant] at read
      cases read
  · next read =>
      rw [meant] at read
      cases read
      rfl

/-- A printable character stands for itself in a basic string. -/
theorem readBasic?_plain (notMark : character ≠ '"') (notBackslash : character ≠ '\\')
    (printable : isPrintable character = true) (rest : Text) :
    readBasic? (character :: rest) = (readBasic? rest).map (before character) := by
  rw [readBasic?, if_neg notMark, if_neg notBackslash, if_pos printable]
  rfl

/-- On one line a character is escaped by what is read as that character, or it stands for itself. -/
theorem escapeInLine_cases (character : Char) :
    (∃ after, escapeInLine character = '\\' :: after ∧ Escapes after character) ∨
      (escapeInLine character = [character] ∧ character ≠ '"' ∧ character ≠ '\\' ∧
        isPrintable character = true) := by
  by_cases mark : character = '"'
  · subst mark
    exact Or.inl ⟨['"'], rfl, fun _ => rfl, fun _ => rfl⟩
  by_cases newline : character = '\n'
  · subst newline
    exact Or.inl ⟨['n'], rfl, fun _ => rfl, fun _ => rfl⟩
  rw [escapeInLine, if_neg mark, if_neg newline]
  exact (escape_cases character).imp id fun plain => ⟨plain.1, mark, plain.2⟩

theorem writeBasic_append (text rest : Text) :
    writeBasic text ++ rest = '"' :: (text.flatMap escapeInLine ++ '"' :: rest) := by
  simp [writeBasic]

/-- A text in a basic string on one line is read back. -/
theorem readBasic?_write (text rest : Text) :
    readBasic? (text.flatMap escapeInLine ++ '"' :: rest) = some (text, rest) := by
  induction text with
  | nil =>
      rw [List.flatMap_nil, List.nil_append, readBasic?, if_pos rfl]
  | cons character text inductionHypothesis =>
      rw [List.flatMap_cons, List.append_assoc]
      rcases escapeInLine_cases character with
        ⟨after, written, escapes⟩ | ⟨written, notMark, notBackslash, printable⟩
      · rw [written, List.cons_append, readBasic?_escape escapes, inductionHypothesis]
        rfl
      · rw [written, List.singleton_append, readBasic?_plain notMark notBackslash printable,
          inductionHypothesis]
        rfl

end Basic

theorem writeLiteral_append (text rest : Text) :
    writeLiteral text ++ rest = '\'' :: (text ++ '\'' :: rest) := by
  simp [writeLiteral]

/-- A text without its mark and without control characters is read back from a literal string. -/
theorem readLiteral?_write {text : Text} (noMark : '\'' ∉ text)
    (printable : ∀ character ∈ text, isPrintable character = true) (rest : Text) :
    readLiteral? (text ++ '\'' :: rest) = some (text, rest) := by
  induction text with
  | nil => rfl
  | cons character text inductionHypothesis =>
      rw [List.mem_cons, not_or] at noMark
      obtain ⟨first, others⟩ := List.forall_mem_cons.1 printable
      rw [List.cons_append, readLiteral?, if_neg (Ne.symm noMark.1), if_pos first,
        inductionHypothesis noMark.2 others]
      rfl

/-- Up to two marks right before the closing ones belong to the string. -/
theorem closing?_replicate {mark : Char} {count : Nat} (few : count ≤ 2) {rest : Text}
    (ends : rest.head? ≠ some mark) :
    closing? mark (List.replicate count mark ++ mark :: mark :: mark :: rest) =
      some (List.replicate count mark, rest) := by
  have marks : List.replicate count mark ++ mark :: mark :: mark :: rest =
      List.replicate (count + 3) mark ++ rest := by
    rw [List.replicate_add, List.append_assoc]
    rfl
  have noMore : rest.takeWhile (· = mark) = [] := by
    cases rest with
    | nil => rfl
    | cons first others => exact List.takeWhile_cons_of_neg (by simpa using ends)
  have counted : ((List.replicate (count + 3) mark ++ rest).takeWhile (· = mark)).length = count + 3 := by
    rw [List.takeWhile_append_of_pos (by simp), noMore, List.append_nil, List.length_replicate]
  have kept : min (count + 3 - 3) 2 = count := by omega
  have dropped : min (count + 3) 5 = count + 3 := by omega
  rw [marks, closing?, counted, if_neg (by omega), kept, dropped, List.drop_left' List.length_replicate]

/-- A text has room before closing marks when fewer marks than that stand at its front, be it that the
text ends with them or that something else follows. -/
def HasRoom (mark : Char) (room : Nat) (text : Text) : Prop :=
  (∃ count ≤ room, text = List.replicate count mark) ∨
    ∀ rest, ((text ++ rest).takeWhile (· = mark)).length ≤ room

namespace HasRoom

variable {mark : Char} {room : Nat} {text : Text}

theorem nil (mark : Char) (room : Nat) : HasRoom mark room [] :=
  Or.inl ⟨0, Nat.zero_le room, rfl⟩

/-- One more mark at the front takes one more place. -/
theorem mark_cons (hasRoom : HasRoom mark room text) : HasRoom mark (room + 1) (mark :: text) := by
  rcases hasRoom with ⟨count, few, rfl⟩ | few
  · exact Or.inl ⟨count + 1, Nat.succ_le_succ few, rfl⟩
  · refine Or.inr fun rest => ?_
    rw [List.cons_append, List.takeWhile_cons_of_pos (by simp)]
    exact Nat.succ_le_succ (few rest)

/-- Another character at the front leaves all the room. -/
theorem of_ne {character : Char} (other : character ≠ mark) (room : Nat) (text : Text) :
    HasRoom mark room (character :: text) := by
  refine Or.inr fun rest => ?_
  rw [List.cons_append, List.takeWhile_cons_of_neg (by simp [other])]
  exact Nat.zero_le room

theorem mono {larger : Nat} (hasRoom : HasRoom mark room text) (le : room ≤ larger) :
    HasRoom mark larger text := by
  rcases hasRoom with ⟨count, few, marks⟩ | few
  · exact Or.inl ⟨count, Nat.le_trans few le, marks⟩
  · exact Or.inr fun rest => Nat.le_trans (few rest) le

/-- Three marks close a text with room for two at its front only if nothing but marks stands before them. -/
theorem closing? (hasRoom : HasRoom mark 2 text) {rest : Text} (ends : rest.head? ≠ some mark) :
    (∃ count, text = List.replicate count mark ∧
        closing? mark (text ++ mark :: mark :: mark :: rest) = some (text, rest)) ∨
      closing? mark (text ++ mark :: mark :: mark :: rest) = none := by
  rcases hasRoom with ⟨count, few, rfl⟩ | few
  · exact Or.inl ⟨count, rfl, closing?_replicate few ends⟩
  · right
    rw [Quoted.closing?]
    exact if_pos (Nat.lt_succ_of_le (few _))

end HasRoom

section Lines

variable {after : Text} {character : Char}

/-- Another character than the mark does not close a string. -/
theorem closing?_of_ne {mark : Char} (other : character ≠ mark) (rest : Text) :
    closing? mark (character :: rest) = none := by
  rw [closing?, List.takeWhile_cons_of_neg (by simp [other])]
  rfl

/-- Three marks close a basic string of several lines. -/
theorem readBasicLines?_closing {text : Text} {read : Text × Text}
    (closed : closing? '"' text = some read) : readBasicLines? text = some read := by
  rw [readBasicLines?.eq_def, closed]

/-- An escape is read as one character, also in a string of several lines. -/
theorem readBasicLines?_escape (escapes : Escapes after character) (rest : Text) :
    readBasicLines? ('\\' :: (after ++ rest)) = (readBasicLines? rest).map (before character) := by
  have meant := escapes.meant rest
  have joinsNothing := escapes.joinsNothing rest
  rw [readBasicLines?, closing?_of_ne (by decide)]
  dsimp only
  rw [if_pos rfl]
  split
  · next continued =>
      rw [joinsNothing] at continued
      cases continued
  · split
    · next read =>
        rw [meant] at read
        cases read
    · next read =>
        rw [meant] at read
        cases read
        rfl

/-- A printable character is not a newline. -/
theorem afterNewline?_of_isPrintable (printable : isPrintable character = true) (rest : Text) :
    afterNewline? (character :: rest) = none := by
  unfold afterNewline?
  split
  · next same =>
      cases same
      exact absurd printable (by decide)
  · next same =>
      cases same
      exact absurd printable (by decide)
  · rfl

/-- A newline stands for itself in a basic string of several lines. -/
theorem readBasicLines?_newline (rest : Text) :
    readBasicLines? ('\n' :: rest) = (readBasicLines? rest).map (before '\n') := by
  rw [readBasicLines?, closing?_of_ne (by decide)]
  rfl

/-- A printable character that does not close the string stands for itself. -/
theorem readBasicLines?_plain {rest : Text} (opened : closing? '"' (character :: rest) = none)
    (notBackslash : character ≠ '\\') (printable : isPrintable character = true) :
    readBasicLines? (character :: rest) = (readBasicLines? rest).map (before character) := by
  have sameLine := afterNewline?_of_isPrintable printable rest
  rw [readBasicLines?, opened]
  dsimp only
  rw [if_neg notBackslash]
  split
  · next newline =>
      rw [sameLine] at newline
      cases newline
  · rw [if_pos printable]
    rfl

/-- One character of a string on several lines is escaped or stands for itself, and a mark that stands
for itself is counted. -/
theorem escapeLines_cons (marks : Nat) (character : Char) (text : Text) :
    ∃ next ≤ 2,
      (∃ after, escapeLines marks (character :: text) = '\\' :: (after ++ escapeLines next text) ∧
        Escapes after character) ∨
      (escapeLines marks (character :: text) = character :: escapeLines next text ∧
        (character = '"' → next = marks + 1) ∧ character ≠ '\\' ∧
        (character = '\n' ∨ isPrintable character = true)) := by
  by_cases mark : character = '"'
  · subst mark
    by_cases fewer : marks < 2
    · refine ⟨marks + 1, fewer, Or.inr ⟨?_, fun _ => rfl, by decide, Or.inr (by decide)⟩⟩
      rw [escapeLines, if_pos rfl, if_pos fewer]
    · refine ⟨0, Nat.zero_le 2, Or.inl ⟨['"'], ?_, fun _ => rfl, fun _ => rfl⟩⟩
      rw [escapeLines, if_pos rfl, if_neg fewer]
      rfl
  refine ⟨0, Nat.zero_le 2, ?_⟩
  by_cases newline : character = '\n'
  · subst newline
    refine Or.inr ⟨?_, fun same => absurd same mark, by decide, Or.inl rfl⟩
    rw [escapeLines, if_neg mark, if_pos rfl]
  · rw [escapeLines, if_neg mark, if_neg newline]
    rcases escape_cases character with ⟨after, written, escapes⟩ | ⟨written, notBackslash, printable⟩
    · exact Or.inl ⟨after, by rw [written]; rfl, escapes⟩
    · exact Or.inr ⟨by rw [written]; rfl, fun same => absurd same mark, notBackslash, Or.inr printable⟩

/-- Since every third mark is escaped, marks that stand before an escaped text and at its front are
together never more than two. -/
theorem hasRoom_escapeLines {marks : Nat} (few : marks ≤ 2) (text : Text) :
    HasRoom '"' (2 - marks) (escapeLines marks text) := by
  induction text generalizing marks with
  | nil => exact HasRoom.nil _ _
  | cons character text inductionHypothesis =>
      obtain ⟨next, fewNext, ⟨after, written, -⟩ | ⟨written, counted, -⟩⟩ :=
        escapeLines_cons marks character text
      · rw [written]
        exact HasRoom.of_ne (by decide) _ _
      rw [written]
      by_cases mark : character = '"'
      · have room : 2 - marks = 2 - next + 1 := by
          have := counted mark
          omega
        rw [mark, room]
        exact (inductionHypothesis fewNext).mark_cons
      · exact HasRoom.of_ne mark _ _

/-- Marks alone come only from marks, because an escape starts with a backslash. -/
theorem eq_replicate_of_escapeLines {marks count : Nat} {text : Text}
    (written : escapeLines marks text = List.replicate count '"') :
    text = List.replicate count '"' := by
  induction text generalizing marks count with
  | nil => exact written
  | cons character text inductionHypothesis =>
      obtain ⟨next, -, ⟨after, escaped, -⟩ | ⟨plain, -⟩⟩ := escapeLines_cons marks character text
      · rw [escaped] at written
        have backslash : '\\' = '"' := List.eq_of_mem_replicate (written ▸ List.mem_cons_self)
        exact absurd backslash (by decide)
      · rw [plain] at written
        cases count with
        | zero => cases written
        | succ count =>
            obtain ⟨mark, others⟩ := List.cons_eq_cons.1 (written.trans List.replicate_succ)
            rw [mark, inductionHypothesis others, List.replicate_succ]

/-- A text in a basic string on several lines is read back. -/
theorem readBasicLines?_escapeLines {marks : Nat} (few : marks ≤ 2) (text : Text) {rest : Text}
    (ends : rest.head? ≠ some '"') :
    readBasicLines? (escapeLines marks text ++ '"' :: '"' :: '"' :: rest) = some (text, rest) := by
  induction text generalizing marks with
  | nil => exact readBasicLines?_closing (closing?_replicate (Nat.zero_le 2) ends)
  | cons character text inductionHypothesis =>
      have hasRoom : HasRoom '"' 2 (escapeLines marks (character :: text)) :=
        (hasRoom_escapeLines few _).mono (Nat.sub_le 2 marks)
      -- The reader first looks for the end, and finds it here only if all that is left are marks.
      obtain ⟨count, marksAlone, closed⟩ | opened := hasRoom.closing? ends
      · have same : escapeLines marks (character :: text) = character :: text :=
          marksAlone.trans (eq_replicate_of_escapeLines marksAlone).symm
        rw [readBasicLines?_closing closed, same]
      obtain ⟨next, fewNext, ⟨after, written, escapes⟩ | ⟨written, -, notBackslash, plain⟩⟩ :=
        escapeLines_cons marks character text
      · rw [written, List.cons_append, List.append_assoc, readBasicLines?_escape escapes,
          inductionHypothesis fewNext]
        rfl
      · rw [written, List.cons_append] at opened ⊢
        rcases plain with rfl | printable
        · rw [readBasicLines?_newline, inductionHypothesis fewNext]
          rfl
        · rw [readBasicLines?_plain opened notBackslash printable, inductionHypothesis fewNext]
          rfl

/-- Three apostrophes close a literal string of several lines. -/
theorem readLiteralLines?_closing {text : Text} {read : Text × Text}
    (closed : closing? '\'' text = some read) : readLiteralLines? text = some read := by
  rw [readLiteralLines?.eq_def, closed]

/-- A newline stands for itself in a literal string of several lines. -/
theorem readLiteralLines?_newline (rest : Text) :
    readLiteralLines? ('\n' :: rest) = (readLiteralLines? rest).map (before '\n') := by
  rw [readLiteralLines?, closing?_of_ne (by decide)]
  rfl

/-- A printable character that does not close the literal string stands for itself. -/
theorem readLiteralLines?_plain {rest : Text} (opened : closing? '\'' (character :: rest) = none)
    (printable : isPrintable character = true) :
    readLiteralLines? (character :: rest) = (readLiteralLines? rest).map (before character) := by
  have sameLine := afterNewline?_of_isPrintable printable rest
  rw [readLiteralLines?, opened]
  dsimp only
  split
  · next newline =>
      rw [sameLine] at newline
      cases newline
  · rw [if_pos printable]
    rfl

/-- The longest run is at least the run that is going on. -/
theorem le_longestRun (mark : Char) (run : Nat) (text : Text) : run ≤ longestRun mark run text := by
  induction text generalizing run with
  | nil => exact Nat.le_refl run
  | cons character text inductionHypothesis =>
      rw [longestRun]
      split
      · exact Nat.le_of_succ_le (inductionHypothesis (run + 1))
      · exact Nat.le_max_left _ _

/-- A longer start makes no run shorter. -/
theorem longestRun_le_longestRun (mark : Char) {run longer : Nat} (le : run ≤ longer) (text : Text) :
    longestRun mark run text ≤ longestRun mark longer text := by
  induction text generalizing run longer with
  | nil => exact le
  | cons character text inductionHypothesis =>
      rw [longestRun, longestRun]
      split
      · exact inductionHypothesis (Nat.succ_le_succ le)
      · exact Nat.max_le.2 ⟨Nat.le_trans le (Nat.le_max_left _ _), Nat.le_max_right _ _⟩

/-- Where no run of marks is longer than two, the closing marks have room. -/
theorem hasRoom_of_longestRun {mark : Char} {run : Nat} {text : Text}
    (short : longestRun mark run text ≤ 2) : HasRoom mark (2 - run) text := by
  induction text generalizing run with
  | nil => exact HasRoom.nil _ _
  | cons character text inductionHypothesis =>
      by_cases same : character = mark
      · rw [longestRun, if_pos same] at short
        have room : 2 - run = 2 - (run + 1) + 1 := by
          have := le_longestRun mark (run + 1) text
          omega
        rw [same, room]
        exact (inductionHypothesis short).mark_cons
      · exact HasRoom.of_ne same _ _

/-- A text without three marks in a row is read back from a literal string on several lines. -/
theorem readLiteralLines?_write {text : Text} (short : longestRun '\'' 0 text ≤ 2)
    (plain : ∀ character ∈ text, character = '\n' ∨ isPrintable character = true) {rest : Text}
    (ends : rest.head? ≠ some '\'') :
    readLiteralLines? (text ++ '\'' :: '\'' :: '\'' :: rest) = some (text, rest) := by
  induction text with
  | nil => exact readLiteralLines?_closing (closing?_replicate (Nat.zero_le 2) ends)
  | cons character text inductionHypothesis =>
      obtain ⟨-, -, closed⟩ | opened := (hasRoom_of_longestRun short).closing? ends
      · exact readLiteralLines?_closing closed
      have shorter : longestRun '\'' 0 text ≤ 2 := by
        rw [longestRun] at short
        split at short
        · exact Nat.le_trans (longestRun_le_longestRun _ (Nat.zero_le 1) text) short
        · exact Nat.le_trans (Nat.le_max_right _ _) short
      obtain ⟨first, others⟩ := List.forall_mem_cons.1 plain
      rw [List.cons_append] at opened ⊢
      rcases first with rfl | printable
      · rw [readLiteralLines?_newline, inductionHypothesis shorter others]
        rfl
      · rw [readLiteralLines?_plain opened printable, inductionHypothesis shorter others]
        rfl

end Lines

section Whole

theorem writeBasicLines_append (text rest : Text) :
    writeBasicLines text ++ rest =
      '"' :: '"' :: '"' :: (openingNewline text ++ (escapeLines 0 text ++ '"' :: '"' :: '"' :: rest)) := by
  change ['"', '"', '"'] ++ openingNewline text ++ escapeLines 0 text ++ ['"', '"', '"'] ++ rest = _
  simp only [List.append_assoc, List.cons_append, List.nil_append]

theorem writeLiteralLines_append (text rest : Text) :
    writeLiteralLines text ++ rest =
      '\'' :: '\'' :: '\'' :: (openingNewline text ++ (text ++ '\'' :: '\'' :: '\'' :: rest)) := by
  change ['\'', '\'', '\''] ++ openingNewline text ++ text ++ ['\'', '\'', '\''] ++ rest = _
  simp only [List.append_assoc, List.cons_append, List.nil_append]

/-- The newline behind the opening marks is not part of the text. -/
theorem skipFirstNewline_openingNewline {text body : Text}
    (sameLine : '\n' ∉ text → afterNewline? body = none) :
    skipFirstNewline (openingNewline text ++ body) = body := by
  by_cases newline : '\n' ∈ text
  · rw [openingNewline, if_pos (List.contains_iff_mem.2 newline)]
    rfl
  · rw [openingNewline, if_neg (mt List.contains_iff_mem.1 newline), List.nil_append, skipFirstNewline,
      sameLine newline]
    rfl

/-- A text without newlines does not begin with one when it is escaped. -/
theorem afterNewline?_escapeLines {text : Text} (noNewline : '\n' ∉ text) (rest : Text) :
    afterNewline? (escapeLines 0 text ++ '"' :: rest) = none := by
  cases text with
  | nil => exact afterNewline?_of_isPrintable (by decide) rest
  | cons character text =>
      obtain ⟨next, -, ⟨after, written, -⟩ | ⟨written, -, -, plain⟩⟩ := escapeLines_cons 0 character text
      · rw [written]
        exact afterNewline?_of_isPrintable (by decide) _
      · rw [written]
        rcases plain with rfl | printable
        · exact absurd List.mem_cons_self noNewline
        · exact afterNewline?_of_isPrintable printable _

/-- A text without newlines does not begin with one as a literal string. -/
theorem afterNewline?_literal {text : Text} (noNewline : '\n' ∉ text)
    (plain : ∀ character ∈ text, character = '\n' ∨ isPrintable character = true) (rest : Text) :
    afterNewline? (text ++ '\'' :: rest) = none := by
  cases text with
  | nil => exact afterNewline?_of_isPrintable (by decide) rest
  | cons character text =>
      rcases plain character List.mem_cons_self with rfl | printable
      · exact absurd List.mem_cons_self noNewline
      · exact afterNewline?_of_isPrintable printable _

/-- One mark opens a basic string. -/
theorem read?_basic {body : Text} (oneMark : ∀ rest, body ≠ '"' :: '"' :: rest) :
    read? ('"' :: body) = readBasic? body := by
  unfold read?
  split
  · next rest same =>
      cases same
      exact absurd rfl (oneMark rest)
  · next same =>
      cases same
      rfl
  · next same => cases same
  · next same => cases same
  · next _ other _ _ => exact absurd rfl (other body)

/-- One apostrophe opens a literal string. -/
theorem read?_literal {body : Text} (oneMark : ∀ rest, body ≠ '\'' :: '\'' :: rest) :
    read? ('\'' :: body) = readLiteral? body := by
  unfold read?
  split
  · next same => cases same
  · next same => cases same
  · next rest same =>
      cases same
      exact absurd rfl (oneMark rest)
  · next same =>
      cases same
      rfl
  · next other => exact absurd rfl (other body)

/-- The four kinds of strings are chosen so that the text fits in them. -/
theorem write_cases (text : Text) :
    write text = writeBasic text ∨
      (write text = writeLiteral text ∧ '\'' ∉ text ∧
        ∀ character ∈ text, isPrintable character = true) ∨
      write text = writeBasicLines text ∨
      (write text = writeLiteralLines text ∧ longestRun '\'' 0 text ≤ 2 ∧
        ∀ character ∈ text, character = '\n' ∨ isPrintable character = true) := by
  have plain (controls : (text.any fun character => isControl character && character ≠ '\n') = false) :
      ∀ character ∈ text, character = '\n' ∨ isPrintable character = true := by
    intro character member
    have none := List.any_eq_false.1 controls character member
    simpa [isControl, Classical.or_iff_not_imp_right] using none
  unfold write
  dsimp only
  split
  · exact Or.inl rfl
  split
  · next fits =>
      simp only [Bool.and_eq_true, Bool.not_eq_true'] at fits
      obtain ⟨⟨controls, noMark⟩, noNewline⟩ := fits
      refine Or.inr (Or.inl ⟨rfl, by simpa using noMark, fun character member => ?_⟩)
      refine (plain controls character member).resolve_left ?_
      rintro rfl
      simp [member] at noNewline
  split
  · exact Or.inr (Or.inr (Or.inl rfl))
  split
  · next fits =>
      simp only [Bool.and_eq_true, Bool.not_eq_true', decide_eq_true_eq] at fits
      exact Or.inr (Or.inr (Or.inr ⟨rfl, fits.2, plain fits.1⟩))
  split
  · exact Or.inr (Or.inr (Or.inl rfl))
  · exact Or.inl rfl

/-- A text that was written is read back, whatever follows it other than a mark. -/
theorem read?_write (text : Text) {rest : Text} (noBasic : rest.head? ≠ some '"')
    (noLiteral : rest.head? ≠ some '\'') : read? (write text ++ rest) = some (text, rest) := by
  obtain written | ⟨written, noMark, printable⟩ | written | ⟨written, short, plain⟩ := write_cases text
  -- An empty string has two marks, and it would open a longer string only if a third one followed.
  · have oneMark : ∀ after, text.flatMap escapeInLine ++ '"' :: rest ≠ '"' :: '"' :: after := by
      intro after same
      cases text with
      | nil => exact noBasic (by rw [List.tail_eq_of_cons_eq same]; rfl)
      | cons character text =>
          rcases escapeInLine_cases character with ⟨_, escaped, -⟩ | ⟨escaped, notMark, -⟩
          · rw [List.flatMap_cons, escaped] at same
            exact absurd (List.head_eq_of_cons_eq same) (by decide)
          · rw [List.flatMap_cons, escaped] at same
            exact absurd (List.head_eq_of_cons_eq same) notMark
    rw [written, writeBasic_append]
    exact (read?_basic oneMark).trans (readBasic?_write text rest)
  · have oneMark : ∀ after, text ++ '\'' :: rest ≠ '\'' :: '\'' :: after := by
      intro after same
      cases text with
      | nil => exact noLiteral (by rw [List.tail_eq_of_cons_eq same]; rfl)
      | cons character text =>
          rw [List.head_eq_of_cons_eq same] at noMark
          exact noMark List.mem_cons_self
    rw [written, writeLiteral_append]
    exact (read?_literal oneMark).trans (readLiteral?_write noMark printable rest)
  · have opened : skipFirstNewline
        (openingNewline text ++ (escapeLines 0 text ++ '"' :: '"' :: '"' :: rest)) =
          escapeLines 0 text ++ '"' :: '"' :: '"' :: rest :=
      skipFirstNewline_openingNewline fun noNewline => afterNewline?_escapeLines noNewline _
    rw [written, writeBasicLines_append]
    exact (congrArg readBasicLines? opened).trans (readBasicLines?_escapeLines (Nat.zero_le 2) text noBasic)
  · have opened : skipFirstNewline (openingNewline text ++ (text ++ '\'' :: '\'' :: '\'' :: rest)) =
        text ++ '\'' :: '\'' :: '\'' :: rest :=
      skipFirstNewline_openingNewline fun noNewline => afterNewline?_literal noNewline plain _
    rw [written, writeLiteralLines_append]
    exact (congrArg readLiteralLines? opened).trans (readLiteralLines?_write short plain noLiteral)

end Whole

/-- Where no space stands, none is skipped. -/
theorem skipSpaces_of_not_isSpace {character : Char} (notSpace : isSpace character = false) (rest : Text) :
    skipSpaces (character :: rest) = character :: rest :=
  List.dropWhile_cons_of_neg (by simp [notSpace])

end Quoted

namespace Key

open Quoted

/-- A part of a key is bare, or it is a string on one line. -/
theorem writePart_cases (text : Text) :
    (writePart text = text ∧ text ≠ [] ∧ ∀ character ∈ text, isBare character = true) ∨
      writePart text = writeBasic text ∨
      (writePart text = writeLiteral text ∧ '\'' ∉ text ∧
        ∀ character ∈ text, isPrintable character = true) := by
  unfold writePart
  dsimp only
  split
  · next bare =>
      simp only [Bool.and_eq_true, Bool.not_eq_true', List.all_eq_true, List.isEmpty_eq_false_iff] at bare
      exact Or.inl ⟨rfl, bare⟩
  split
  · exact Or.inr (Or.inl rfl)
  split
  · next fits =>
      simp only [Bool.and_eq_true, Bool.not_eq_true', List.any_eq_false, isControl] at fits
      exact Or.inr (Or.inr ⟨rfl, by simpa using fits.2, by simpa using fits.1⟩)
  · exact Or.inr (Or.inl rfl)

/-- This is a text that does not go on with a key before it. -/
structure EndsKey (rest : Text) : Prop where
  notBare : ∀ character ∈ rest.head?, isBare character = false
  notDotted : (skipSpaces rest).head? ≠ some '.'

/-- A bare part of a key is read up to the first character that cannot belong to it. -/
theorem readPart?_bare {text rest : Text} (nonempty : text ≠ [])
    (bare : ∀ character ∈ text, isBare character = true)
    (notBare : ∀ character ∈ rest.head?, isBare character = false) :
    readPart? (text ++ rest) = some (text, rest) := by
  have taken : (text ++ rest).takeWhile isBare = text := by
    have noMore : rest.takeWhile isBare = [] := by
      cases rest with
      | nil => rfl
      | cons first others => exact List.takeWhile_cons_of_neg (by simp [notBare first rfl])
    rw [List.takeWhile_append_of_pos bare, noMore, List.append_nil]
  have dropped : (text ++ rest).dropWhile isBare = rest := by
    rw [List.dropWhile_append_of_pos bare]
    cases rest with
    | nil => rfl
    | cons first others => exact List.dropWhile_cons_of_neg (by simp [notBare first rfl])
  have first {mark : Char} {others : Text} (same : text ++ rest = mark :: others) : isBare mark = true := by
    cases text with
    | nil => exact absurd rfl nonempty
    | cons first text => exact List.head_eq_of_cons_eq same ▸ bare first List.mem_cons_self
  unfold readPart?
  split
  · next same => exact absurd (first same) (by decide)
  · next same => exact absurd (first same) (by decide)
  · rw [taken, dropped]
    exact if_neg (by simpa using nonempty)

/-- A part of a key that was written is read back. -/
theorem readPart?_writePart (text : Text) {rest : Text}
    (notBare : ∀ character ∈ rest.head?, isBare character = false) :
    readPart? (writePart text ++ rest) = some (text, rest) := by
  obtain ⟨written, nonempty, bare⟩ | written | ⟨written, noMark, printable⟩ := writePart_cases text
  · rw [written]
    exact readPart?_bare nonempty bare notBare
  · rw [written, writeBasic_append]
    exact readBasic?_write text rest
  · rw [written, writeLiteral_append]
    exact readLiteral?_write noMark printable rest

/-- A part of a key starts with a bare character or with a mark. -/
theorem exists_cons_of_writePart (text : Text) :
    ∃ first body, writePart text = first :: body ∧
      (isBare first = true ∨ first = '"' ∨ first = '\'') := by
  obtain ⟨written, nonempty, bare⟩ | written | ⟨written, -⟩ := writePart_cases text
  · obtain ⟨first, body, rfl⟩ := List.exists_cons_of_ne_nil nonempty
    exact ⟨first, body, written, Or.inl (bare first List.mem_cons_self)⟩
  · exact ⟨'"', _, written, Or.inr (Or.inl rfl)⟩
  · exact ⟨'\'', _, written, Or.inr (Or.inr rfl)⟩

/-- What starts a part of a key is none of the other signs. -/
theorem ne_of_starts {first other : Char} (starts : isBare first = true ∨ first = '"' ∨ first = '\'')
    (never : isBare other = false ∧ other ≠ '"' ∧ other ≠ '\'') : first ≠ other := by
  rintro rfl
  rcases starts with bare | basic | literal
  · exact Bool.false_ne_true (never.1.symm.trans bare)
  · exact never.2.1 basic
  · exact never.2.2 literal

theorem isSpace_of_starts {first : Char} (starts : isBare first = true ∨ first = '"' ∨ first = '\'') :
    isSpace first = false := by
  have notBlank : first ≠ ' ' := ne_of_starts starts (by decide)
  have notTab : first ≠ '\t' := ne_of_starts starts (by decide)
  simp [isSpace, notBlank, notTab]

/-- No space stands in front of a part of a key. -/
theorem skipSpaces_writePart (text rest : Text) :
    skipSpaces (writePart text ++ rest) = writePart text ++ rest := by
  obtain ⟨first, body, written, starts⟩ := exists_cons_of_writePart text
  rw [written]
  exact skipSpaces_of_not_isSpace (isSpace_of_starts starts) _

/-- These are the parts of a key after its first one. -/
def writeMore (parts : List Text) : Text :=
  parts.flatMap fun part => '.' :: writePart part

/-- A dot stands in front of every further part of a key. -/
theorem writeMore_cons (part : Text) (parts : List Text) (rest : Text) :
    writeMore (part :: parts) ++ rest = '.' :: (writePart part ++ (writeMore parts ++ rest)) := by
  simp [writeMore]

theorem write_cons (part : Text) (parts : List Text) :
    write (part :: parts) = writePart part ++ writeMore parts := by
  induction parts generalizing part with
  | nil => exact (List.append_nil _).symm
  | cons second parts inductionHypothesis =>
      have step : write (part :: second :: parts) = writePart part ++ ['.'] ++ write (second :: parts) := rfl
      rw [step, inductionHypothesis, List.append_assoc, List.singleton_append]
      rfl

/-- A part of a key ends at the next dot or at the end of the key. -/
theorem notBare_writeMore (parts : List Text) {rest : Text}
    (notBare : ∀ character ∈ rest.head?, isBare character = false) :
    ∀ character ∈ (writeMore parts ++ rest).head?, isBare character = false := by
  cases parts with
  | nil => exact notBare
  | cons part parts =>
      rw [writeMore_cons]
      rintro character ⟨rfl⟩
      decide

/-- The further parts of a key are read back. -/
theorem readMore?_writeMore {parts : List Text} {limit : Nat} (few : parts.length < limit) {rest : Text}
    (ends : EndsKey rest) :
    readMore? limit (writeMore parts ++ rest) = some (parts, skipSpaces rest) := by
  induction parts generalizing limit with
  | nil =>
      obtain ⟨limit, rfl⟩ := Nat.exists_eq_add_one.2 few
      change readMore? (limit + 1) rest = _
      rw [readMore?]
      split
      · next dot => exact absurd (by rw [dot]; rfl) ends.notDotted
      · rfl
  | cons part parts inductionHypothesis =>
      obtain ⟨limit, rfl⟩ := Nat.exists_eq_add_one.2 (Nat.zero_lt_of_lt few)
      have read := readPart?_writePart part (notBare_writeMore parts ends.notBare)
      rw [writeMore_cons, readMore?, skipSpaces_of_not_isSpace rfl]
      simp only [skipSpaces_writePart, read, inductionHypothesis (Nat.lt_of_succ_lt_succ few),
        Option.bind_eq_bind, Option.bind_some, Option.pure_def]

/-- A key that was written is read back, and the spaces after it are skipped. -/
theorem read?_write (part : Text) {parts : List Text} (few : parts.length < depthLimit - 1) {rest : Text}
    (ends : EndsKey rest) :
    read? (write (part :: parts) ++ rest) = some (part :: parts, skipSpaces rest) := by
  have first := readPart?_writePart part (notBare_writeMore parts ends.notBare)
  have more := readMore?_writeMore few ends
  rw [write_cons, List.append_assoc, read?, skipSpaces_writePart, first]
  simp only [Option.bind_eq_bind, Option.bind_some, more, Option.pure_def]

end Key

end FeatureLint.Toml
