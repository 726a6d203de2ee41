import FeatureLint.Text

/-!
This file holds the values of TOML. A table remembers how it came to be, because a later header or
dotted key may extend some tables and must not touch others.
-/

namespace FeatureLint.Toml

inductive Origin where
  /-- The table or the array was written as a value and is complete. -/
  | inline
  /-- The table has a header of its own. -/
  | header
  /-- The table was named on the way to another header. -/
  | implied
  /-- The table was made by a dotted key. -/
  | dotted
deriving DecidableEq, Repr

/-- Numbers with a fraction and dates are checked when they are read, but only their text is kept. -/
inductive Value where
  | string (text : Text)
  | integer (number : Int)
  | float (text : Text)
  | boolean (truth : Bool)
  | dateTime (text : Text)
  | array (origin : Origin) (elements : List Value)
  | table (origin : Origin) (entries : List (Text × Value))

/-- The entries of a table stay in the order in which they were added. -/
abbrev Entries := List (Text × Value)

namespace Entries

def lookup? (key : Text) : Entries → Option Value
  | [] => none
  | (known, value) :: rest => if known = key then some value else lookup? key rest

/-- This function adds a key at the end. -/
def append (key : Text) (value : Value) (entries : Entries) : Entries :=
  entries ++ [(key, value)]

/-- This function gives a new value to a key that is there, and the key keeps its place. -/
def replace (key : Text) (value : Value) : Entries → Entries
  | [] => []
  | (known, old) :: rest =>
      if known = key then (known, value) :: rest else (known, old) :: replace key value rest

def erase (key : Text) (entries : Entries) : Entries :=
  entries.filter fun entry => entry.1 ≠ key

end Entries

end FeatureLint.Toml
