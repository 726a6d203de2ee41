import FeatureLint.Names
import Mathlib.Data.List.Basic
import Mathlib.Data.List.Perm.Basic

/-!
This file fills the placeholders of a template at once. Filling one column after the other could make a
placeholder out of a value, or break one, but it does neither where no text has an angle bracket. Main
statement: filling the columns in turn gives each placeholder the value of the first column with its
name, so the order of the columns does not matter when their names are different.
-/

namespace FeatureLint

/-- A plain text has no angle brackets. -/
@[ext]
structure PlainText where
  text : Text
  noOpening : '<' ∉ text
  noClosing : '>' ∉ text
deriving DecidableEq, Repr

namespace Template

/-- A template is made of plain texts and of slots, which are placeholders with plain names. -/
inductive Piece where
  | literal (text : PlainText)
  | slot (name : PlainText)
deriving DecidableEq, Repr

/-- A column is its title and its value. -/
abbrev Column := PlainText × PlainText

namespace Piece

def spell : Piece → Text
  | literal text => text.text
  | slot name => placeholder name.text

/-- A slot takes the value of the first column with its name, and without such a column it stays. -/
def fill (columns : List Column) : Piece → Text
  | literal text => text.text
  | slot name =>
      match columns.lookup name with
      | some value => value.text
      | none => placeholder name.text

/-- This function fills the slots of one column. -/
def fillOne (column : Column) : Piece → Piece
  | literal text => literal text
  | slot name => if name = column.1 then literal column.2 else slot name

/-- A piece is filled by the first column and then by the others. -/
theorem fill_cons (column : Column) (columns : List Column) (piece : Piece) :
    piece.fill (column :: columns) = (piece.fillOne column).fill columns := by
  cases piece with
  | literal text => rfl
  | slot name =>
      obtain ⟨title, value⟩ := column
      by_cases same : name = title <;> simp [fill, fillOne, List.lookup_cons, same, beq_false_of_ne]

end Piece

def spell (pieces : List Piece) : Text :=
  pieces.flatMap Piece.spell

theorem spell_cons (piece : Piece) (rest : List Piece) :
    spell (piece :: rest) = piece.spell ++ spell rest := rfl

/-- This function fills all slots at once. -/
def fill (columns : List Column) (pieces : List Piece) : Text :=
  pieces.flatMap (Piece.fill columns)

section Replacement

variable (column value : Text)

/-- A placeholder starts only where an angle bracket opens. -/
theorem replaceFrom_of_noOpening {front : Text} (noOpening : '<' ∉ front) (rest : Text) :
    Text.replaceFrom (placeholder column) value 0 (front ++ rest) =
      front ++ Text.replaceFrom (placeholder column) value 0 rest := by
  induction front with
  | nil => rfl
  | cons character front inductionHypothesis =>
      rw [List.mem_cons, not_or] at noOpening
      have starts : Text.startsWith (character :: (front ++ rest)) (placeholder column) = false := by
        simp [Text.startsWith, placeholder, Text.afterLead?, noOpening.1]
      rw [List.cons_append, Text.replaceFrom, starts, inductionHypothesis noOpening.2]
      rfl

/-- What was replaced is passed over. -/
theorem replaceFrom_length (front rest : Text) :
    Text.replaceFrom (placeholder column) value front.length (front ++ rest) =
      Text.replaceFrom (placeholder column) value 0 rest := by
  induction front with
  | nil => rfl
  | cons character front inductionHypothesis =>
      rw [List.length_cons, List.cons_append, Text.replaceFrom, inductionHypothesis]

end Replacement

/-- A placeholder starts with another one only when they are the same, because a name ends at the first
bracket that closes. -/
theorem startsWith_placeholder_iff (name column : PlainText) (rest : Text) :
    Text.startsWith (placeholder name.text ++ rest) (placeholder column.text) = true ↔
      name.text = column.text := by
  have upToClosing (plain : PlainText) (after : Text) :
      (plain.text ++ '>' :: after).takeWhile (· ≠ '>') = plain.text := by
    have others : ∀ character ∈ plain.text, decide (character ≠ '>') = true := by
      intro character member
      rw [decide_eq_true_eq]
      intro closing
      exact plain.noClosing (closing ▸ member)
    rw [List.takeWhile_append_of_pos others, List.takeWhile_cons_of_neg (by simp), List.append_nil]
  rw [Text.startsWith_iff]
  constructor
  · intro starts
    obtain ⟨after, same⟩ := starts
    simp only [placeholder, List.cons_append, List.append_assoc, List.nil_append, List.cons.injEq,
      true_and] at same
    rw [← upToClosing name rest, same, upToClosing]
  · intro same
    exact ⟨rest, by rw [same]⟩

/-- The placeholder of a column is replaced by the value. -/
theorem replaceFrom_placeholder_self (column value rest : Text) :
    Text.replaceFrom (placeholder column) value 0 (placeholder column ++ rest) =
      value ++ Text.replaceFrom (placeholder column) value 0 rest := by
  have starts : Text.startsWith (placeholder column ++ rest) (placeholder column) = true := by
    rw [Text.startsWith_iff]
    exact ⟨rest, rfl⟩
  have passed := replaceFrom_length column value (column ++ ['>']) rest
  change (if Text.startsWith (placeholder column ++ rest) (placeholder column) = true then
    value ++ Text.replaceFrom (placeholder column) value (column ++ ['>']).length
      (column ++ ['>'] ++ rest) else _) = _
  rw [if_pos starts, passed]

/-- The placeholder of another name stays. -/
theorem replaceFrom_placeholder_of_ne {name column : PlainText} (other : name.text ≠ column.text)
    (value rest : Text) :
    Text.replaceFrom (placeholder column.text) value 0 (placeholder name.text ++ rest) =
      placeholder name.text ++ Text.replaceFrom (placeholder column.text) value 0 rest := by
  have starts : ¬ Text.startsWith (placeholder name.text ++ rest) (placeholder column.text) = true := by
    rw [startsWith_placeholder_iff]
    exact other
  have noOpening : '<' ∉ name.text ++ ['>'] := by simp [name.noOpening]
  have passed := replaceFrom_of_noOpening column.text value noOpening rest
  change (if Text.startsWith (placeholder name.text ++ rest) (placeholder column.text) = true then _
    else '<' :: Text.replaceFrom (placeholder column.text) value 0 (name.text ++ ['>'] ++ rest)) = _
  rw [if_neg starts, passed]
  rfl

/-- Replacing the placeholder of a column fills the slots of the column and nothing else. -/
theorem replaceAll_spell (column : Column) (pieces : List Piece) :
    Text.replaceAll (placeholder column.1.text) column.2.text (spell pieces) =
      spell (pieces.map (Piece.fillOne column)) := by
  rw [Text.replaceAll]
  induction pieces with
  | nil => rfl
  | cons piece rest inductionHypothesis =>
      rw [List.map_cons, spell_cons, spell_cons, ← inductionHypothesis]
      cases piece with
      | literal text => exact replaceFrom_of_noOpening _ _ text.noOpening _
      | slot name =>
          by_cases same : name = column.1
          · rw [Piece.fillOne, if_pos same, same]
            exact replaceFrom_placeholder_self _ _ _
          · have other : name.text ≠ column.1.text := by
              intro equal
              exact same (PlainText.ext equal)
            rw [Piece.fillOne, if_neg same]
            exact replaceFrom_placeholder_of_ne other _ _

theorem fill_nil (pieces : List Piece) : fill [] pieces = spell pieces := rfl

/-- Pieces are filled by the first column and then by the others. -/
theorem fill_cons (column : Column) (columns : List Column) (pieces : List Piece) :
    fill (column :: columns) pieces = fill columns (pieces.map (Piece.fillOne column)) := by
  rw [fill, fill, List.flatMap_map]
  congr 1
  funext piece
  exact Piece.fill_cons column columns piece

/-- Filling one column after the other is filling all slots at once. -/
theorem interpolate_spell (header row : List PlainText) (pieces : List Piece) :
    interpolate (spell pieces) (header.map PlainText.text) (row.map PlainText.text) =
      fill (header.zip row) pieces := by
  induction header generalizing row pieces with
  | nil => rw [List.zip_nil_left, fill_nil]; rfl
  | cons title header inductionHypothesis =>
      cases row with
      | nil => rw [List.zip_nil_right, fill_nil]; rfl
      | cons value row =>
          have step := replaceAll_spell (title, value) pieces
          rw [List.map_cons, List.map_cons, interpolate, step, inductionHypothesis, List.zip_cons_cons,
            fill_cons]

/-- The order of columns with different titles does not matter. -/
theorem lookup_of_perm {columns others : List Column} (permuted : columns.Perm others)
    (different : (columns.map Prod.fst).Nodup) (name : PlainText) :
    columns.lookup name = others.lookup name := by
  induction permuted with
  | nil => rfl
  | cons column _ inductionHypothesis =>
      rw [List.map_cons, List.nodup_cons] at different
      rw [List.lookup_cons, List.lookup_cons, inductionHypothesis different.2]
  | swap first second columns =>
      obtain ⟨title, value⟩ := first
      obtain ⟨otherTitle, otherValue⟩ := second
      have apart : otherTitle ≠ title := by
        intro same
        simp [same] at different
      rw [List.lookup_cons, List.lookup_cons, List.lookup_cons, List.lookup_cons]
      by_cases isTitle : name = title
      · rw [beq_false_of_ne (isTitle ▸ Ne.symm apart)]
      · rw [beq_false_of_ne isTitle]
  | trans permuted _ first second =>
      exact (first different).trans (second ((permuted.map Prod.fst).nodup_iff.1 different))

/-- The order of different columns does not matter. -/
theorem fill_of_perm {columns others : List Column} (permuted : columns.Perm others)
    (different : (columns.map Prod.fst).Nodup) (pieces : List Piece) :
    fill columns pieces = fill others pieces := by
  rw [fill, fill]
  congr 1
  funext piece
  cases piece with
  | literal text => rfl
  | slot name => rw [Piece.fill, lookup_of_perm permuted different, Piece.fill]

/-- Filling one column after the other gives each slot the value of the first column with its name that
has a title and a value, and leaves a slot without such a column as it is. Hence columns with different
titles may be put in any order. -/
theorem interpolate_fills_at_once (pieces : List Piece) (header row : List PlainText) :
    interpolate (spell pieces) (header.map PlainText.text) (row.map PlainText.text) =
        fill (header.zip row) pieces ∧
      (header.Nodup → row.length = header.length → ∀ otherHeader otherRow : List PlainText,
        (header.zip row).Perm (otherHeader.zip otherRow) →
          interpolate (spell pieces) (otherHeader.map PlainText.text) (otherRow.map PlainText.text) =
            interpolate (spell pieces) (header.map PlainText.text) (row.map PlainText.text)) := by
  constructor
  · exact interpolate_spell header row pieces
  · intro different sameLength otherHeader otherRow permuted
    have titles : ((header.zip row).map Prod.fst).Nodup := by
      rw [List.map_fst_zip (Nat.le_of_eq sameLength.symm)]
      exact different
    rw [interpolate_spell, interpolate_spell, fill_of_perm permuted titles]

/-- The value of each column is the title of the other one, and neither is filled twice. -/
theorem interpolate_fills_at_once_crosswise :
    let a : PlainText := ⟨"a".toList, by decide, by decide⟩
    let b : PlainText := ⟨"b".toList, by decide, by decide⟩
    let c : PlainText := ⟨"c".toList, by decide, by decide⟩
    let dash : PlainText := ⟨" - ".toList, by decide, by decide⟩
    let pieces := [.slot a, .literal dash, .slot b, .literal dash, .slot c]
    spell pieces = "<a> - <b> - <c>".toList ∧ fill ([a, b].zip [b, a]) pieces = "b - a - <c>".toList ∧
      interpolate (spell pieces) ["a".toList, "b".toList] ["b".toList, "a".toList] =
        "b - a - <c>".toList ∧
      interpolate (spell pieces) ["b".toList, "a".toList] ["a".toList, "b".toList] =
        "b - a - <c>".toList := by
  intro a b c dash pieces
  have filled := interpolate_fills_at_once pieces [a, b] [b, a]
  have permuted := filled.2 (by decide) rfl [b, a] [a, b] (List.Perm.swap _ _ _)
  exact ⟨by decide, by decide, filled.1.trans (by decide), permuted.trans (filled.1.trans (by decide))⟩

end Template

end FeatureLint
