import FeatureLint.Toml.Statement

/-!
This file puts the statements of a TOML text together to one table.
-/

namespace FeatureLint.Toml

namespace Entries

/-- This function changes the table that a header names. Tables that are missing on the way are made,
an array of tables stands for its last element, and any other value is closed to headers. -/
def reach? (change : Entries → Option Entries) : List Text → Entries → Option Entries
  | [], entries => change entries
  | key :: path, entries =>
      match entries.lookup? key with
      | none => do
          let below ← reach? change path []
          return entries.append key (.table .implied below)
      | some (.table origin below) => do
          if origin = .inline then none
          let below ← reach? change path below
          return entries.replace key (.table origin below)
      | some (.array .header elements) => do
          let .table origin below ← elements.getLast? | none
          let below ← reach? change path below
          return entries.replace key (.array .header (elements.dropLast ++ [.table origin below]))
      | some _ => none

/-- This function gives a table its header. Only a table that was named on the way to another header
may be there already, and it moves to the end. -/
def open? (key : Text) (entries : Entries) : Option Entries :=
  match entries.lookup? key with
  | none => some (entries.append key (.table .header []))
  | some (.table .implied below) => some ((entries.erase key).append key (.table .header below))
  | some _ => none

/-- This function adds an empty element to an array of tables. -/
def addElement? (key : Text) (entries : Entries) : Option Entries :=
  match entries.lookup? key with
  | none => some (entries.append key (.array .header [.table .header []]))
  | some (.array .header elements) =>
      some (entries.replace key (.array .header (elements ++ [.table .header []])))
  | some _ => none

end Entries

/-- A table under construction knows which of its tables the last header named. -/
structure Draft where
  entries : Entries
  current : List Text

namespace Draft

def add? (draft : Draft) : Statement → Option Draft
  | .table key => do
      let last ← key.getLast?
      return ⟨← draft.entries.reach? (Entries.open? last) key.dropLast, key⟩
  | .element key => do
      let last ← key.getLast?
      return ⟨← draft.entries.reach? (Entries.addElement? last) key.dropLast, key⟩
  | .pair key value => do
      return ⟨← draft.entries.reach? (Entries.insertAt? key value) draft.current, draft.current⟩

end Draft

/-- This function reads a TOML text. -/
def read? (text : Text) : Option Entries := do
  let statements ← Statement.ofText? text
  let draft ← statements.foldlM Draft.add? ⟨[], []⟩
  return draft.entries

end FeatureLint.Toml
