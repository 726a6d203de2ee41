import FeatureLint.Line

/-!
This file holds the reasons why a text is not a feature file. Each error sits on one line of the
text.
-/

namespace FeatureLint

inductive ParseError.Cause where
  | unexpectedLine (expected found : Text)
  | duplicateFeature
  | examplesOutsideOutline
  | misalignedRow (expected found : Nat)
  | unterminatedDocString
deriving DecidableEq, Repr

structure ParseError where
  cause : ParseError.Cause
  line : Nat
  span : Span
deriving DecidableEq, Repr

namespace ParseError

/-- This function puts an error on a line. -/
def onLine (line : Line) (cause : Cause) : ParseError :=
  ⟨cause, line.number, line.span⟩

/-- This error says what was expected in place of a line. -/
def unexpected (line : Line) (expected : Text) : ParseError :=
  let found := match line.keyword? with
    | some keyword => keyword.description
    | none => "text `".toList ++ line.content ++ "`".toList
  .onLine line (.unexpectedLine expected found)

def Cause.message : Cause → Text
  | unexpectedLine expected found =>
      "unexpected ".toList ++ found ++ ", expected ".toList ++ expected
  | duplicateFeature => "a file may only contain one feature".toList
  | examplesOutsideOutline => "examples are only allowed under a scenario outline".toList
  | misalignedRow expected found =>
      "row has ".toList ++ Text.ofNat found ++ " cells, but the header has ".toList ++
        Text.ofNat expected
  | unterminatedDocString => "doc string is never closed".toList

def message (error : ParseError) : Text :=
  "line ".toList ++ Text.ofNat error.line ++ ": ".toList ++ error.cause.message

/-- The label is written under the line of the error. -/
def label (error : ParseError) : Text :=
  match error.cause with
  | .unexpectedLine _ _ => "here".toList
  | .duplicateFeature => "second feature".toList
  | .examplesOutsideOutline => "not inside a scenario outline".toList
  | .misalignedRow _ _ => "inconsistent cell count".toList
  | .unterminatedDocString => "opened here".toList

end ParseError

end FeatureLint
