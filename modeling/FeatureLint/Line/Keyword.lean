import FeatureLint.Text

/-!
This file holds the keywords that can stand at the start of a line of a feature file.
-/

namespace FeatureLint

inductive Keyword where
  | feature
  | rule
  | background
  | scenario
  | outline
  | examples
  | step
  | row
  | tag
  | comment
  | fence
deriving DecidableEq, Repr

namespace Keyword

/-- This table lists every spelling of every keyword. No spelling is the start of another one. -/
def spellings : List (Text × Keyword) :=
  [("Feature:".toList, feature), ("Rule:".toList, rule), ("Background:".toList, background),
    ("Scenario:".toList, scenario), ("Example:".toList, scenario),
    ("Scenario Outline:".toList, outline), ("Scenario Template:".toList, outline),
    ("Examples:".toList, examples), ("Scenarios:".toList, examples),
    ("Given ".toList, step), ("When ".toList, step), ("Then ".toList, step),
    ("And ".toList, step), ("But ".toList, step), ("* ".toList, step),
    ("|".toList, row), ("@".toList, tag), ("#".toList, comment),
    ("\"\"\"".toList, fence), ("```".toList, fence)]

/-- This function reads the keyword at the start of a text and returns what follows it. -/
def read? (text : Text) : Option (Keyword × Text) :=
  spellings.findSome? fun (spelling, keyword) =>
    (Text.afterLead? spelling text).map fun rest => (keyword, rest)

/-- This is the keyword in the words of an error message. -/
def description : Keyword → Text
  | feature => "`Feature:`".toList
  | rule => "`Rule:`".toList
  | background => "`Background:`".toList
  | scenario => "`Scenario:`".toList
  | outline => "`Scenario Outline:`".toList
  | examples => "`Examples:`".toList
  | step => "step".toList
  | row => "table row".toList
  | tag => "tag".toList
  | comment => "comment".toList
  | fence => "doc string".toList

/-- These keywords open a block of steps. -/
def opensBlock : Keyword → Bool
  | background | scenario | outline => true
  | _ => false

/-- These keywords end the block of steps before them. -/
def opensSection : Keyword → Bool
  | feature | rule => true
  | keyword => keyword.opensBlock

end Keyword

end FeatureLint
