import FeatureLint.Problem

/-!
This file writes problems as a listing for people. Problems are grouped by linter and then by message,
both in the order of their first appearance, and each message is followed by its sorted locations.
-/

namespace FeatureLint.Report.Grouped

/-- The values of each key, with the keys in the order of their first appearance. -/
def insert {Key Value : Type} [DecidableEq Key] (key : Key) (value : Value) :
    List (Key × List Value) → List (Key × List Value)
  | [] => [(key, [value])]
  | (known, values) :: rest =>
      if known = key then (known, values ++ [value]) :: rest
      else (known, values) :: insert key value rest

def groupBy {Item Key Value : Type} [DecidableEq Key] (key : Item → Key) (value : Item → Value)
    (items : List Item) : List (Key × List Value) :=
  items.foldl (fun groups item => insert (key item) (value item) groups) []

def location (location : Location) : Text :=
  "    ".toList ++ location.text ++ ['\n']

def message (group : Text × List Location) : Text :=
  "  ".toList ++ group.1 ++ '\n' :: (Location.sort group.2).flatMap location

def linter (group : Text × List Problem) : Text :=
  group.1 ++ '\n' :: (groupBy Problem.message Problem.location group.2).flatMap message

/-- This is the whole listing with the number of problems at its end. -/
def render (problems : List Problem) : Text :=
  (groupBy Problem.linter id problems).flatMap linter ++
    (if problems.isEmpty then [] else ['\n']) ++
    Text.ofNat problems.length ++ " issues found\n".toList

end FeatureLint.Report.Grouped
