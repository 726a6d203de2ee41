import FeatureLint.Report.Grouped
import FeatureLint.Report.Json

/-!
This file holds the formats of a report.
-/

namespace FeatureLint

inductive Report.Format where
  | pretty
  | json
deriving DecidableEq, Repr

namespace Report.Format

def all : List Format := [pretty, json]

def default : Format := pretty

def name : Format → Text
  | pretty => "pretty".toList
  | json => "json".toList

def ofName? (name : Text) : Option Format :=
  all.find? fun format => format.name = name

/-- This function reads the name of a format, in which upper case letters may stand for lower case
ones if `ignoreCase` is set. -/
def read (ignoreCase : Bool) (value : Text) : Except Text Format :=
  match ofName? (if ignoreCase then value.map Char.toLower else value) with
  | some format => .ok format
  | none => .error ("invalid variant: ".toList ++ value)

def render : Format → List Problem → Text
  | pretty, problems => Grouped.render problems
  | json, problems => Json.render problems

end Report.Format

end FeatureLint
