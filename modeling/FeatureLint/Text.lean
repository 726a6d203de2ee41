/-!
This file holds texts as lists of characters and the few operations that every other part uses.
Lengths and offsets of the library count UTF-8 bytes, so `byteLength` is the measure of a text.
-/

namespace FeatureLint

/-- A text is the list of its characters. -/
abbrev Text := List Char

namespace Text

/-- This is the number of bytes that the text takes in UTF-8. -/
def byteLength (text : Text) : Nat :=
  text.foldr (fun character bytes => character.utf8Size + bytes) 0

@[simp] theorem byteLength_nil : byteLength [] = 0 := rfl

@[simp] theorem byteLength_cons (character : Char) (rest : Text) :
    byteLength (character :: rest) = character.utf8Size + byteLength rest := rfl

@[simp] theorem byteLength_append (first second : Text) :
    byteLength (first ++ second) = byteLength first + byteLength second := by
  induction first with
  | nil => simp
  | cons character rest inductionHypothesis =>
      rw [List.cons_append, byteLength_cons, byteLength_cons, inductionHypothesis, Nat.add_assoc]

/-- This function writes a number in decimal digits. -/
def ofNat (number : Nat) : Text :=
  Nat.toDigits 10 number

/-- This function takes a leading text away and fails when the text does not start with it. -/
def afterLead? : (lead text : Text) → Option Text
  | [], text => some text
  | _ :: _, [] => none
  | expected :: lead, character :: text =>
      if expected = character then afterLead? lead text else none

theorem afterLead?_eq_some_iff (lead text rest : Text) :
    afterLead? lead text = some rest ↔ text = lead ++ rest := by
  induction lead generalizing text with
  | nil => simp [afterLead?]
  | cons expected lead inductionHypothesis =>
      cases text with
      | nil => simp [afterLead?]
      | cons character text =>
          by_cases same : expected = character
          · simp [afterLead?, same, inductionHypothesis]
          · simp [afterLead?, same, Ne.symm same]

/-- This test asks whether the text starts with the given lead. -/
def startsWith (text lead : Text) : Bool :=
  (afterLead? lead text).isSome

theorem startsWith_iff (text lead : Text) :
    startsWith text lead = true ↔ ∃ rest, text = lead ++ rest := by
  simp [startsWith, Option.isSome_iff_exists, afterLead?_eq_some_iff]

/-- This function replaces a pattern from left to right while `skip` characters of the last
match are still to be passed over. -/
def replaceFrom (pattern replacement : Text) : (skip : Nat) → Text → Text
  | _, [] => []
  | skip + 1, _ :: rest => replaceFrom pattern replacement skip rest
  | 0, character :: rest =>
      if startsWith (character :: rest) pattern then
        replacement ++ replaceFrom pattern replacement (pattern.length - 1) rest
      else
        character :: replaceFrom pattern replacement 0 rest

/-- This function replaces every occurrence of a pattern that is not empty. Occurrences are found
from left to right and do not overlap, and the replacement is not searched again. -/
def replaceAll (pattern replacement text : Text) : Text :=
  replaceFrom pattern replacement 0 text

/-- This function cuts a text at every separator, so that the pieces are one more than the
separators. -/
def cutAt (separator : Char) : Text → List Text
  | [] => [[]]
  | character :: rest =>
      if character = separator then
        [] :: cutAt separator rest
      else
        match cutAt separator rest with
        | [] => [[character]]
        | piece :: pieces => (character :: piece) :: pieces

/-- This function puts a separator between the pieces. -/
def joinWith (separator : Text) : List Text → Text
  | [] => []
  | [piece] => piece
  | piece :: rest => piece ++ separator ++ joinWith separator rest

theorem cutAt_ne_nil (separator : Char) (text : Text) : cutAt separator text ≠ [] := by
  cases text with
  | nil => simp [cutAt]
  | cons character rest =>
      unfold cutAt
      split
      · simp
      · split <;> simp

theorem joinWith_cutAt (separator : Char) (text : Text) :
    joinWith [separator] (cutAt separator text) = text := by
  induction text with
  | nil => rfl
  | cons character rest inductionHypothesis =>
      cases cut : cutAt separator rest with
      | nil => exact absurd cut (cutAt_ne_nil separator rest)
      | cons piece pieces =>
          rw [cut] at inductionHypothesis
          by_cases same : character = separator
          · simp [cutAt, same, cut, joinWith, inductionHypothesis]
          · cases pieces <;> simp_all [cutAt, joinWith]

/-- Pieces that follow only make a joined text longer. -/
theorem length_joinWith_append (separator : Text) (first : List Text) (piece : Text)
    (rest : List Text) :
    (joinWith separator first).length + piece.length ≤
      (joinWith separator (first ++ piece :: rest)).length := by
  induction first with
  | nil => cases rest <;> simp [joinWith]
  | cons head tail inductionHypothesis =>
      cases tail with
      | nil =>
          cases rest with
          | nil => simp [joinWith]
          | cons next others => simp [joinWith]; omega
      | cons second others =>
          simp only [List.cons_append, joinWith, List.length_append] at inductionHypothesis ⊢
          omega

theorem length_joinWith_le_append (separator : Text) (first second : List Text) :
    (joinWith separator first).length ≤ (joinWith separator (first ++ second)).length := by
  cases second with
  | nil => simp
  | cons piece rest =>
      have longer := length_joinWith_append separator first piece rest
      omega

/-- This is the first line of a text with the newline that ends it. -/
def firstLine : Text → Text
  | [] => []
  | character :: rest =>
      if character = '\n' then [character] else character :: firstLine rest

/-- This is what follows the first line of a text. -/
def afterFirstLine : Text → Text
  | [] => []
  | character :: rest =>
      if character = '\n' then rest else afterFirstLine rest

theorem firstLine_append_afterFirstLine (text : Text) :
    firstLine text ++ afterFirstLine text = text := by
  induction text with
  | nil => rfl
  | cons character rest inductionHypothesis =>
      by_cases newline : character = '\n' <;>
        simp [firstLine, afterFirstLine, newline, inductionHypothesis]

theorem length_afterFirstLine_le (text : Text) :
    (afterFirstLine text).length ≤ text.length := by
  have whole := congrArg List.length (firstLine_append_afterFirstLine text)
  rw [List.length_append] at whole
  omega

theorem length_afterFirstLine_lt (character : Char) (rest : Text) :
    (afterFirstLine (character :: rest)).length < (character :: rest).length := by
  by_cases newline : character = '\n'
  · simp [afterFirstLine, newline]
  · simpa [afterFirstLine, newline] using Nat.lt_succ_of_le (length_afterFirstLine_le rest)

end Text

end FeatureLint
