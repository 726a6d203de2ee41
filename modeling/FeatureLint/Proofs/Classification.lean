import FeatureLint.Proofs.Printing

/-!
This file says how one raw line is classified. No spelling of a keyword is the start of another one, so a
content has one keyword or none, and the keyword, the blanks behind it and the text make up the content. Main
statement: the keyword that leads the trimmed line is found whenever there is one, reading the content again
gives the same line, and blanks around the raw line only move it.
-/

namespace FeatureLint

namespace Text

/-- Blanks in front of a text that is not blank only make its indentation longer. -/
theorem indentation_append_of_blank {front back text : Text}
    (blank : ∀ character ∈ front, isBlank character = true) (present : trim text ≠ []) :
    indentation (front ++ text ++ back) = front ++ indentation text := by
  have cut : (indentation text).length ≠ text.length := by
    intro whole
    apply present
    have split := indentation_append_trimStart text
    have all : indentation text = text := (List.takeWhile_prefix isBlank).eq_of_length whole
    rw [all, List.append_right_eq_self] at split
    rw [trim, split]
    rfl
  rw [indentation, List.append_assoc, List.takeWhile_append_of_pos blank, List.takeWhile_append]
  exact congrArg (front ++ ·) (if_neg cut)

/-- A text that is trimmed has no indentation. -/
theorem indentation_trim (text : Text) : indentation (trim text) = [] := by
  have first := (ends_trim text).1
  cases trimmed : trim text with
  | nil => rfl
  | cons character rest =>
      rw [trimmed] at first
      exact List.takeWhile_cons_of_neg (by rw [first character rfl]; exact Bool.false_ne_true)

/-- What follows the start of a trimmed text ends where the text ends, so that trimming it takes blanks from
its front only. -/
theorem exists_blanks_append_trim {lead rest : Text} (trimmed : trim (lead ++ rest) = lead ++ rest) :
    ∃ blanks, lead ++ rest = lead ++ blanks ++ trim rest ∧
      ∀ character ∈ blanks, isBlank character = true := by
  obtain ⟨back, split, blank⟩ := exists_append_trim rest
  have last := ((trim_eq_self_iff _).1 trimmed).2
  have nothing : back = [] := by
    by_contra present
    obtain ⟨before, character, ends⟩ := List.eq_nil_or_concat back |>.resolve_left present
    rw [List.concat_eq_append] at ends
    have isBlank := blank character (ends ▸ List.mem_concat_self)
    rw [split, ends, ← List.append_assoc, ← List.append_assoc] at last
    rw [last character List.getLast?_concat] at isBlank
    cases isBlank
  refine ⟨indentation rest, ?_, ?_⟩
  · conv_lhs => rw [split, nothing, List.append_nil, ← List.append_assoc]
  · intro character member
    exact List.mem_takeWhile_imp member

end Text

namespace Keyword

theorem read?_eq_none_iff {text : Text} :
    read? text = none ↔ ∀ entry ∈ spellings, ¬entry.1 <+: text := by
  constructor
  · rintro nothing entry listed ⟨rest, rfl⟩
    rw [read?_append listed] at nothing
    cases nothing
  · intro bare
    cases found : read? text with
    | none => rfl
    | some read =>
        obtain ⟨spelling, listed, rfl⟩ := exists_spelling found
        exact absurd (List.prefix_append spelling read.2) (bare _ listed)

/-- At most one spelling leads a text. -/
theorem spelling_unique {text : Text} {one other : Text × Keyword} (listed : one ∈ spellings)
    (listedToo : other ∈ spellings) (leads : one.1 <+: text) (leadsToo : other.1 <+: text) :
    one = other := by
  obtain ⟨rest, split⟩ := leads
  obtain ⟨restToo, splitToo⟩ := leadsToo
  have read := read?_append listed rest
  have readToo := read?_append listedToo restToo
  rw [split] at read
  rw [splitToo, read, Option.some.injEq, Prod.mk.injEq] at readToo
  obtain ⟨sameKeyword, sameRest⟩ := readToo
  rw [← splitToo, sameRest, List.append_cancel_right_eq] at split
  exact Prod.ext split sameKeyword

end Keyword

namespace Line

/-- A line has the keyword that leads its content and the text behind it, or it has no keyword and its text is
its content. -/
inductive Classified (line : Line) : Prop where
  | keyword {spelling blanks : Text} {keyword : Keyword} (listed : (spelling, keyword) ∈ Keyword.spellings)
      (found : line.keyword? = some keyword) (split : line.content = spelling ++ blanks ++ line.text)
      (blank : ∀ character ∈ blanks, Text.isBlank character = true)
      (trimmed : Text.trim line.text = line.text)
  | plain (bare : ∀ entry ∈ Keyword.spellings, ¬entry.1 <+: line.content) (found : line.keyword? = none)
      (same : line.text = line.content)

theorem classified_ofContent (number : Nat) {content : Text} (span : Span)
    (trimmed : Text.trim content = content) : (ofContent number content span).Classified := by
  have text := trim_ofContent_text number span trimmed
  cases read : Keyword.read? content with
  | some found =>
      obtain ⟨keyword, rest⟩ := found
      obtain ⟨spelling, listed, split⟩ := Keyword.exists_spelling read
      obtain ⟨blanks, parts, blank⟩ := Text.exists_blanks_append_trim (split ▸ trimmed)
      rw [ofContent, read] at text ⊢
      exact .keyword listed rfl (split.trans parts) blank text
  | none =>
      rw [ofContent, read]
      exact .plain (Keyword.read?_eq_none_iff.1 read) rfl rfl

/-- The keyword of a line is the one that leads its content. -/
theorem Classified.keyword?_eq_some_iff {line : Line} (classified : line.Classified) (keyword : Keyword) :
    line.keyword? = some keyword ↔
      ∃ spelling, (spelling, keyword) ∈ Keyword.spellings ∧ spelling <+: line.content := by
  cases classified with
  | keyword listed found split =>
      have leads : _ <+: line.content := ⟨_, (split.trans (List.append_assoc _ _ _)).symm⟩
      constructor
      · intro same
        rw [found, Option.some.injEq] at same
        exact ⟨_, same ▸ listed, leads⟩
      · rintro ⟨spelling, listedToo, leadsToo⟩
        have same := Keyword.spelling_unique listed listedToo leads leadsToo
        rw [found, (Prod.mk.inj same).2]
  | plain bare found =>
      rw [found]
      constructor
      · intro impossible
        cases impossible
      · rintro ⟨spelling, listed, leads⟩
        exact absurd leads (bare _ listed)

theorem read_number (number offset : Nat) (raw : Text) : (read number offset raw).number = number := by
  rw [read_eq_ofContent, ofContent_number]

theorem classified_read (number offset : Nat) (raw : Text) : (read number offset raw).Classified := by
  rw [read_eq_ofContent]
  exact classified_ofContent number _ (Text.trim_trim raw)

/-- Lines with one content differ in their numbers and spans only. -/
theorem read_eq_of_trim {raw other : Text} (same : Text.trim raw = Text.trim other) (number offset start : Nat) :
    read number offset raw =
      { read number start other with span := (read number offset raw).span } := by
  rw [read_eq_ofContent, read_eq_ofContent, same, ofContent_span]
  unfold ofContent
  split <;> rfl

/-- Reading the content of a line again, from where it starts, gives the same line. -/
theorem read_content_again (number offset : Nat) (raw : Text) :
    read number (read number offset raw).span.start (read number offset raw).content =
      read number offset raw := by
  have spans : (read number (read number offset raw).span.start (Text.trim raw)).span =
      (read number offset raw).span := by
    rw [read_span, read_span, Text.indentation_trim, Text.trim_trim, Text.byteLength_nil, Nat.add_zero]
  rw [read_content, read_eq_of_trim (Text.trim_trim raw) number _ offset, spans]

/-- Blanks around a line that is not blank move its span by the bytes in front of it. -/
theorem read_span_append_of_blank (number offset : Nat) {front raw back : Text}
    (frontBlank : ∀ character ∈ front, Text.isBlank character = true)
    (backBlank : ∀ character ∈ back, Text.isBlank character = true) (present : Text.trim raw ≠ []) :
    (read number offset (front ++ raw ++ back)).span =
      ⟨(read number offset raw).span.start + Text.byteLength front,
        (read number offset raw).span.stop + Text.byteLength front⟩ := by
  rw [read_span, read_span, Text.trim_append_of_blank frontBlank backBlank,
    Text.indentation_append_of_blank frontBlank present, Text.byteLength_append, Span.mk.injEq]
  dsimp only
  omega

/-- At most one spelling of a keyword leads the trimmed line, and the line gets that keyword exactly when there
is one. Its content is then the spelling, some blanks and the trimmed text, and otherwise the text is the content.
Reading the content again from where it starts changes nothing, and blanks around the raw line change nothing but
the span, which they move by the bytes in front unless the line is blank. -/
theorem read_is_exact_and_stable (number offset : Nat) (raw : Text) :
    let line := read number offset raw
    line.number = number ∧ line.content = Text.trim raw ∧
    (∀ one ∈ Keyword.spellings, ∀ other ∈ Keyword.spellings,
      one.1 <+: Text.trim raw → other.1 <+: Text.trim raw → one = other) ∧
    (∀ keyword, line.keyword? = some keyword ↔
      ∃ spelling, (spelling, keyword) ∈ Keyword.spellings ∧ spelling <+: Text.trim raw) ∧
    line.Classified ∧
    read number line.span.start line.content = line ∧
    ∀ front back : Text, (∀ character ∈ front, Text.isBlank character = true) →
      (∀ character ∈ back, Text.isBlank character = true) →
        ∃ span, read number offset (front ++ raw ++ back) = { line with span := span } ∧
          (line.content ≠ [] →
            span = ⟨line.span.start + Text.byteLength front, line.span.stop + Text.byteLength front⟩) := by
  intro line
  have content : line.content = Text.trim raw := read_content number offset raw
  have classified : line.Classified := classified_read number offset raw
  refine ⟨read_number number offset raw, content, ?_, ?_, classified, read_content_again number offset raw, ?_⟩
  · intro one listed other listedToo
    exact Keyword.spelling_unique listed listedToo
  · intro keyword
    rw [← content]
    exact classified.keyword?_eq_some_iff keyword
  · intro front back frontBlank backBlank
    have same := Text.trim_append_of_blank frontBlank backBlank raw
    refine ⟨_, read_eq_of_trim same number offset offset, fun present => ?_⟩
    exact read_span_append_of_blank number offset frontBlank backBlank (content ▸ present)

/-- A spelling with a space in it, a name that is itself a keyword, an inner newline and wide blanks around the
line, which is moved by the five bytes of the blanks in front. -/
theorem read_is_exact_and_stable_between_wide_blanks :
    let raw := "Scenario Outline:\n Scenario:".toList
    let front := "\u3000 \t".toList
    let back := "\u2028\n".toList
    let line : Line := ⟨1, some .outline, raw, "Scenario:".toList, ⟨7, 35⟩⟩
    read 1 7 raw = line ∧ read 1 7 (front ++ raw ++ back) = { line with span := ⟨12, 40⟩ } ∧
      read 1 12 line.content = { line with span := ⟨12, 40⟩ } := by
  intro raw front back line
  have here : read 1 7 raw = line := by decide
  obtain ⟨-, -, -, -, -, -, moves⟩ := read_is_exact_and_stable 1 7 raw
  have frontBlank : front.all Text.isBlank = true := by decide
  have backBlank : back.all Text.isBlank = true := by decide
  obtain ⟨span, moved, span_eq⟩ := moves front back (List.all_eq_true.1 frontBlank) (List.all_eq_true.1 backBlank)
  rw [span_eq (by decide), here] at moved
  have again := (read_is_exact_and_stable 1 7 (front ++ raw ++ back)).2.2.2.2.2.1
  rw [moved] at again
  exact ⟨here, moved, again⟩

end Line

end FeatureLint
