import FeatureLint.Document

/-!
This file holds the names that scenarios and outlines stand for. An outline has a template for a name,
and each row of its examples fills the placeholders of the template.
-/

namespace FeatureLint

/-- A placeholder is the title of a column in angle brackets. -/
def placeholder (column : Text) : Text :=
  '<' :: column ++ ['>']

/-- This function fills the placeholders of a template, one column after the other. A row that is
shorter than the header leaves the last columns out. -/
def interpolate (template : Text) : (header row : List Text) → Text
  | column :: header, value :: row =>
      interpolate (Text.replaceAll (placeholder column) value template) header row
  | [], _ | _, [] => template

namespace Document

/-- The first row of an examples table is its header, and every other row gives one name. -/
def namesOfTable (document : Document) (template : Text) (table : Nat) : List Text :=
  match document.childrenWith table .row with
  | [] => []
  | header :: rows =>
      rows.map fun row => interpolate template (document.cells header) (document.cells row)

/-- These are the names that a node stands for: the name of a scenario, or the names that the tables
of an outline give in order. -/
def namesOf (document : Document) (number : Nat) : List Text :=
  match document.kind? number with
  | some (.scenario name) => [name]
  | some (.outline template) =>
      (document.childrenWith number .examples).flatMap (document.namesOfTable template)
  | _ => []

end Document

end FeatureLint
