import FeatureLint.Text

/-!
This file holds the white space characters of the Unicode standard and trims texts by them.
-/

namespace FeatureLint.Text

/-- These ranges are the characters with the property `White_Space`. -/
def blankRanges : List (Nat × Nat) :=
  [(0x0009, 0x000D), (0x0020, 0x0020), (0x0085, 0x0085), (0x00A0, 0x00A0), (0x1680, 0x1680),
    (0x2000, 0x200A), (0x2028, 0x2029), (0x202F, 0x202F), (0x205F, 0x205F), (0x3000, 0x3000)]

def isBlank (character : Char) : Bool :=
  blankRanges.any fun range => range.1 ≤ character.toNat && character.toNat ≤ range.2

def trimStart (text : Text) : Text :=
  text.dropWhile isBlank

def trimEnd (text : Text) : Text :=
  (text.reverse.dropWhile isBlank).reverse

/-- This function removes white space from both ends. -/
def trim (text : Text) : Text :=
  trimEnd (trimStart text)

/-- These are the blanks in front of a text. -/
def indentation (text : Text) : Text :=
  text.takeWhile isBlank

theorem indentation_append_trimStart (text : Text) :
    indentation text ++ trimStart text = text :=
  List.takeWhile_append_dropWhile

end FeatureLint.Text
