import FeatureLint.Problem

/-!
This file writes problems as a JSON array with one object for each problem.
-/

namespace FeatureLint.Report.Json

def hexDigit (digit : Nat) : Char :=
  "0123456789abcdef".toList.getD digit '0'

/-- Quotes, backslashes and control characters are escaped, and every other character stands for
itself. -/
def escape (character : Char) : Text :=
  if character = '"' then ['\\', '"']
  else if character = '\\' then ['\\', '\\']
  else if character = '\x08' then ['\\', 'b']
  else if character = '\x0c' then ['\\', 'f']
  else if character = '\n' then ['\\', 'n']
  else if character = '\r' then ['\\', 'r']
  else if character = '\t' then ['\\', 't']
  else if character.toNat < 0x20 then
    ['\\', 'u', '0', '0', hexDigit (character.toNat / 16), hexDigit (character.toNat % 16)]
  else [character]

def quote (text : Text) : Text :=
  '"' :: text.flatMap escape ++ ['"']

def field (key value : Text) : Text :=
  "    ".toList ++ quote key ++ ": ".toList ++ quote value

def record (problem : Problem) : Text :=
  "  \x7b\n".toList ++ field "linter".toList problem.linter ++ ",\n".toList ++
    field "problem".toList problem.message ++ ",\n".toList ++
    field "location".toList problem.location.text ++ "\n  \x7d".toList

/-- This is the whole array, indented by two spaces for each level. -/
def render (problems : List Problem) : Text :=
  if problems.isEmpty then "[]\n".toList
  else "[\n".toList ++ Text.joinWith ",\n".toList (problems.map record) ++ "\n]\n".toList

end FeatureLint.Report.Json
