import FeatureLint.Ledger
import FeatureLint.Linter
import FeatureLint.Names

/-!
This file holds the linter that asks for unique scenario names. The scenarios and outlines of a rule
are checked when the rule is visited, scenarios first, and only the first problem of a rule is
reported. All other scenarios and outlines are checked one by one.
-/

namespace FeatureLint

namespace UniqueNames

def linterName : Text := "UniqueScenarioNamesLinter".toList

/-- This is how a message speaks of the names of a node. -/
def subject (document : Document) (number : Nat) : Text :=
  if document.is number .outline then "Scenario name created by Scenario Outline".toList
  else "Scenario name".toList

def message (subject name : Text) (duplicate : Duplicate) : Text :=
  subject ++ " '".toList ++ name ++ "' is not unique. \n    Original name is on line: ".toList ++
    Text.ofNat duplicate.first ++ " \n    Duplicate is on: ".toList ++ duplicate.repeatsText

/-- This function records the names of one scenario or outline and then reports the first of them
that occurred before. A node without a scope has no place and is not checked. -/
def check (document : Document) (number : Nat) (ledger : Ledger) : Ledger × Option Problem :=
  match document.scopeOf? number, document.line? number with
  | some scope, some line =>
      let names := document.namesOf number
      let recorded := names.foldl (fun ledger name => ledger.record name scope line) ledger
      let problem? := names.findSome? fun name =>
        (recorded.duplicate? name scope).map fun duplicate =>
          ⟨linterName, message (subject document number) name duplicate, scope.file, line⟩
      (recorded, problem?)
  | _, _ => (ledger, none)

/-- This function checks several nodes in turn and keeps the first problem. -/
def checkAll (document : Document) : List Nat → Ledger → Ledger × Option Problem
  | [], ledger => (ledger, none)
  | number :: rest, ledger =>
      let (ledger, problem?) := check document number ledger
      let (ledger, later?) := checkAll document rest ledger
      (ledger, problem?.or later?)

/-- These are the nodes that are checked when a node is visited. -/
def checkedAt (document : Document) (number : Nat) : List Nat :=
  if document.is number .rule then
    document.childrenWith number .scenario ++ document.childrenWith number .outline
  else if document.is number .scenario || document.is number .outline then
    if (document.ancestor? number .rule).isSome then [] else [number]
  else
    []

def evaluate (document : Document) (number : Nat) (ledger : Ledger) : Ledger × Option Problem :=
  checkAll document (checkedAt document number) ledger

def linter : Linter where
  State := Ledger
  name := linterName
  description := "Checks that scenario names are unique within their feature file or rule".toList
  look := evaluate
  clear := Ledger.clear
  state := Ledger.empty

end UniqueNames

/-- This runner has every linter of the library. -/
def Runner.default : Runner :=
  Runner.empty.register UniqueNames.linter

end FeatureLint
