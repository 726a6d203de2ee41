import FeatureLint.Path

/-!
This file holds problems and the places where they were found.
-/

namespace FeatureLint

structure Location where
  file : Path
  line : Nat
deriving DecidableEq, Repr

namespace Location

def text (location : Location) : Text :=
  location.file.text ++ ':' :: Text.ofNat location.line

/-- Two locations are alike when they name the same file by components and the same line. -/
def alike (first second : Location) : Bool :=
  first.file.alike second.file && first.line = second.line

/-- Locations are put in order by their files and, in one file, by their lines. -/
def le (first second : Location) : Bool :=
  if first.file.alike second.file then first.line ≤ second.line else first.file.le second.file

/-- This function sorts locations and keeps the order of those that are alike. -/
def sort (locations : List Location) : List Location :=
  locations.mergeSort le

end Location

structure Problem where
  linter : Text
  message : Text
  location : Location
deriving DecidableEq, Repr

def Problem.text (problem : Problem) : Text :=
  problem.location.text ++ ": ".toList ++ problem.message

end FeatureLint
