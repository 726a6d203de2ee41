import FeatureLint.Feature.ParseError
import FeatureLint.Path

/-!
This file shows a parse error in a frame with the lines around it. The line of the error is underlined,
and a label hangs from the middle of the underline.
-/

namespace FeatureLint.Report.Excerpt

def spaces (count : Nat) : Text :=
  List.replicate count ' '

/-- These are the lines of a source without the newlines that end them. -/
def linesOf (source : Text) : List Text :=
  match (Text.cutAt '\n' source).reverse with
  | [] :: rest => rest.reverse
  | lines => lines.reverse

/-- Each line number is shown with the text of the line. -/
def numbered (width number : Nat) (text : Text) : Text :=
  let digits := Text.ofNat number
  ' ' :: spaces (width - digits.length) ++ digits ++ " │ ".toList ++ text ++ ['\n']

/-- Lines under a source line leave the column of the numbers free. -/
def under (width : Nat) (text : Text) : Text :=
  spaces (width + 2) ++ "· ".toList ++ text ++ ['\n']

/-- The underline has a joint in its middle. -/
def underline (length : Nat) : Text :=
  List.replicate (length / 2) '─' ++ '┬' :: List.replicate (length - length / 2 - 1) '─'

/-- This is the part of the frame that shows one line of the source. -/
def shownLine (error : ParseError) (source : Text) (width number : Nat) : Text :=
  match (linesOf source)[number - 1]? with
  | none => []
  | some text =>
      if number = error.line then
        let indentation := (Text.indentation text).length
        let length := (Text.trim text).length
        numbered width number text ++
          under width (spaces indentation ++ underline length) ++
          under width (spaces (indentation + length / 2) ++ "╰── ".toList ++ error.label)
      else numbered width number text

/-- The lines before and after the line of the error are shown too, where there are any. -/
def shownNumbers (error : ParseError) (source : Text) : List Nat :=
  [error.line - 1, error.line, error.line + 1].filter fun number =>
    1 ≤ number && number ≤ (linesOf source).length

def column (error : ParseError) (source : Text) : Nat :=
  (Text.indentation ((linesOf source).getD (error.line - 1) [])).length + 1

def render (path : Path) (source : Text) (error : ParseError) : Text :=
  let numbers := shownNumbers error source
  let width := (Text.ofNat (numbers.getLastD error.line)).length
  "  × ".toList ++ error.message ++ ['\n'] ++
    spaces (width + 2) ++ "╭─[".toList ++ path.text ++ ':' :: Text.ofNat error.line ++
    ':' :: Text.ofNat (column error source) ++ "]\n".toList ++
    numbers.flatMap (shownLine error source width) ++
    spaces (width + 2) ++ "╰────\n".toList

end FeatureLint.Report.Excerpt
