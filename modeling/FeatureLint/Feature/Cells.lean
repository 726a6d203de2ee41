import FeatureLint.Text.Blank

/-!
This file cuts the text of a table row into cells. A bar closes one cell and opens the next, and a
backslash takes the meaning from a bar, from another backslash, or makes a newline of an `n`.
-/

namespace FeatureLint.Row

/-- This function reads the rest of a row while a cell is open or, before the first bar, while none
is. The characters of the open cell are kept in reverse. -/
def cellsFrom (opened : Bool) (cell : Text) : Text → List Text
  | [] => []
  | '|' :: rest =>
      if opened then Text.trim cell.reverse :: cellsFrom true [] rest else cellsFrom true [] rest
  | ['\\'] => []
  | '\\' :: '|' :: rest => cellsFrom opened ('|' :: cell) rest
  | '\\' :: '\\' :: rest => cellsFrom opened ('\\' :: cell) rest
  | '\\' :: 'n' :: rest => cellsFrom opened ('\n' :: cell) rest
  | '\\' :: other :: rest => cellsFrom opened (other :: '\\' :: cell) rest
  | character :: rest => cellsFrom opened (character :: cell) rest

/-- These are the trimmed cells of a row. What stands before the first bar or after the last one is
no cell. -/
def cellsOf (content : Text) : List Text :=
  cellsFrom false [] content

end FeatureLint.Row
