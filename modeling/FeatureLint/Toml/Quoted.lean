import FeatureLint.Text

/-!
This file reads and writes the four kinds of quoted text in TOML: basic strings, in which a backslash
starts an escape, and literal strings, in which it does not, each on one line or on several lines.
-/

namespace FeatureLint.Toml

/-- Tabs are the only control characters that may stand unescaped in a line. -/
def isPrintable (character : Char) : Bool :=
  character = '\t' || (0x20 ≤ character.toNat && character.toNat ≠ 0x7F)

/-- These are control characters other than tabs. -/
def isControl (character : Char) : Bool :=
  !isPrintable character

namespace Quoted

def hexValue? (character : Char) : Option Nat :=
  let number := character.toNat
  if 0x30 ≤ number ∧ number ≤ 0x39 then some (number - 0x30)
  else if 0x41 ≤ number ∧ number ≤ 0x46 then some (number - 0x41 + 10)
  else if 0x61 ≤ number ∧ number ≤ 0x66 then some (number - 0x61 + 10)
  else none

def digitsValue (base : Nat) (digits : List Nat) : Nat :=
  digits.foldl (fun value digit => value * base + digit) 0

/-- This function reads the number of a character in exactly `count` hexadecimal digits. -/
def readHex? (count : Nat) (text : Text) : Option (Char × Text) := do
  let digits ← (text.take count).mapM hexValue?
  let number := digitsValue 16 digits
  if digits.length = count ∧ number.isValidChar then
    return (Char.ofNat number, text.drop count)
  else
    none

/-- This function reads what follows a backslash. -/
def readEscape? : Text → Option (Char × Text)
  | 'b' :: rest => some ('\x08', rest)
  | 't' :: rest => some ('\t', rest)
  | 'n' :: rest => some ('\n', rest)
  | 'f' :: rest => some ('\x0c', rest)
  | 'r' :: rest => some ('\r', rest)
  | '"' :: rest => some ('"', rest)
  | '\\' :: rest => some ('\\', rest)
  | 'u' :: rest => readHex? 4 rest
  | 'U' :: rest => readHex? 8 rest
  | _ => none

theorem length_readHex? {count : Nat} {text after : Text} {character : Char}
    (read : readHex? count text = some (character, after)) : after.length ≤ text.length := by
  simp only [readHex?, Option.bind_eq_bind, Option.bind_eq_some_iff] at read
  obtain ⟨digits, _, read⟩ := read
  split at read
  · cases read
    simp
  · contradiction

theorem length_readEscape? {text after : Text} {character : Char}
    (read : readEscape? text = some (character, after)) : after.length < text.length := by
  unfold readEscape? at read
  split at read
  case h_8 | h_9 => exact Nat.lt_succ_of_le (length_readHex? read)
  case h_10 => contradiction
  all_goals
    cases read
    exact Nat.lt_succ_self _

/-- This function reads the rest of a basic string on one line. -/
def readBasic? (text : Text) : Option (Text × Text) :=
  match text with
  | [] => none
  | character :: rest =>
      if character = '"' then some ([], rest)
      else if character = '\\' then
        match _read : readEscape? rest with
        | none => none
        | some (meant, after) => (readBasic? after).map fun (body, last) => (meant :: body, last)
      else if isPrintable character then
        (readBasic? rest).map fun (body, last) => (character :: body, last)
      else none
termination_by text.length
decreasing_by
  · exact Nat.lt_succ_of_lt (length_readEscape? _read)
  · exact Nat.lt_succ_self _

/-- This function reads the rest of a literal string on one line. -/
def readLiteral? : Text → Option (Text × Text)
  | [] => none
  | character :: rest =>
      if character = '\'' then some ([], rest)
      else if isPrintable character then
        (readLiteral? rest).map fun (body, last) => (character :: body, last)
      else none

/-- A string on several lines ends with three marks, and up to two more marks right before them belong
to the string. This function reads such an end. -/
def closing? (mark : Char) (text : Text) : Option (Text × Text) :=
  let marks := (text.takeWhile (· = mark)).length
  if marks < 3 then none
  else some (List.replicate (min (marks - 3) 2) mark, text.drop (min marks 5))

/-- Only a line feed, alone or after a carriage return, ends a line. -/
def afterNewline? : Text → Option Text
  | '\n' :: rest => some rest
  | '\r' :: '\n' :: rest => some rest
  | _ => none

theorem length_afterNewline? {text after : Text} (read : afterNewline? text = some after) :
    after.length < text.length := by
  unfold afterNewline? at read
  split at read
  · cases read
    exact Nat.lt_succ_self _
  · cases read
    exact Nat.lt_succ_of_lt (Nat.lt_succ_self _)
  · contradiction

def isSpace (character : Char) : Bool :=
  character = ' ' || character = '\t'

def skipSpaces (text : Text) : Text :=
  text.dropWhile isSpace

theorem length_skipSpaces (text : Text) : (skipSpaces text).length ≤ text.length :=
  (List.dropWhile_suffix isSpace).length_le

/-- This function drops spaces and newlines. -/
def skipLayout : Text → Text
  | '\r' :: '\n' :: rest => skipLayout rest
  | character :: rest =>
      if isSpace character || character = '\n' then skipLayout rest else character :: rest
  | [] => []

theorem length_skipLayout (text : Text) : (skipLayout text).length ≤ text.length := by
  fun_induction skipLayout text <;> grind

/-- A backslash at the end of a line joins the line with the next text, wherever it starts. -/
def continued? (text : Text) : Option Text :=
  (afterNewline? (skipSpaces text)).map skipLayout

theorem length_continued? {text after : Text} (read : continued? text = some after) :
    after.length < text.length := by
  obtain ⟨line, newline, rfl⟩ := Option.map_eq_some_iff.1 read
  have := length_afterNewline? newline
  have := length_skipSpaces text
  have := length_skipLayout line
  omega

/-- This function reads the rest of a basic string on several lines. -/
def readBasicLines? (text : Text) : Option (Text × Text) :=
  match closing? '"' text with
  | some closed => some closed
  | none =>
      match text with
      | [] => none
      | character :: rest =>
          if character = '\\' then
            match _continued : continued? rest with
            | some after => readBasicLines? after
            | none =>
                match _read : readEscape? rest with
                | none => none
                | some (meant, after) =>
                    (readBasicLines? after).map fun (body, last) => (meant :: body, last)
          else
            match _newline : afterNewline? (character :: rest) with
            | some after => (readBasicLines? after).map fun (body, last) => ('\n' :: body, last)
            | none =>
                if isPrintable character then
                  (readBasicLines? rest).map fun (body, last) => (character :: body, last)
                else none
termination_by text.length
decreasing_by
  · exact Nat.lt_succ_of_lt (length_continued? _continued)
  · exact Nat.lt_succ_of_lt (length_readEscape? _read)
  · exact length_afterNewline? _newline
  · exact Nat.lt_succ_self _

/-- This function reads the rest of a literal string on several lines. -/
def readLiteralLines? (text : Text) : Option (Text × Text) :=
  match closing? '\'' text with
  | some closed => some closed
  | none =>
      match text with
      | [] => none
      | character :: rest =>
          match _newline : afterNewline? (character :: rest) with
          | some after => (readLiteralLines? after).map fun (body, last) => ('\n' :: body, last)
          | none =>
              if isPrintable character then
                (readLiteralLines? rest).map fun (body, last) => (character :: body, last)
              else none
termination_by text.length
decreasing_by
  · exact length_afterNewline? _newline
  · exact Nat.lt_succ_self _

/-- A newline right after the three opening marks does not belong to the string. -/
def skipFirstNewline (text : Text) : Text :=
  (afterNewline? text).getD text

/-- This function reads a string of any kind. -/
def read? : Text → Option (Text × Text)
  | '"' :: '"' :: '"' :: rest => readBasicLines? (skipFirstNewline rest)
  | '"' :: rest => readBasic? rest
  | '\'' :: '\'' :: '\'' :: rest => readLiteralLines? (skipFirstNewline rest)
  | '\'' :: rest => readLiteral? rest
  | _ => none

def upperHexDigit (digit : Nat) : Char :=
  "0123456789ABCDEF".toList.getD digit '0'

/-- This function escapes a character other than a mark or a newline. -/
def escape (character : Char) : Text :=
  if character = '\x08' then ['\\', 'b']
  else if character = '\t' then ['\\', 't']
  else if character = '\x0c' then ['\\', 'f']
  else if character = '\r' then ['\\', 'r']
  else if character = '\\' then ['\\', '\\']
  else if isControl character then
    ['\\', 'u', '0', '0', upperHexDigit (character.toNat / 16), upperHexDigit (character.toNat % 16)]
  else [character]

def escapeInLine (character : Char) : Text :=
  if character = '"' then ['\\', '"']
  else if character = '\n' then ['\\', 'n']
  else escape character

def writeBasic (text : Text) : Text :=
  '"' :: text.flatMap escapeInLine ++ ['"']

def writeLiteral (text : Text) : Text :=
  '\'' :: text ++ ['\'']

/-- The third of three marks in a row is escaped, so that they do not end the string. -/
def escapeLines : (marks : Nat) → Text → Text
  | _, [] => []
  | marks, character :: rest =>
      if character = '"' then
        if marks < 2 then character :: escapeLines (marks + 1) rest
        else '\\' :: character :: escapeLines 0 rest
      else if character = '\n' then character :: escapeLines 0 rest
      else escape character ++ escapeLines 0 rest

/-- A text with newlines starts on a line of its own. -/
def openingNewline (text : Text) : Text :=
  if text.contains '\n' then ['\n'] else []

def writeBasicLines (text : Text) : Text :=
  "\"\"\"".toList ++ openingNewline text ++ escapeLines 0 text ++ "\"\"\"".toList

def writeLiteralLines (text : Text) : Text :=
  "'''".toList ++ openingNewline text ++ text ++ "'''".toList

/-- This is the length of the longest run of a mark, where `run` marks stand before the text. -/
def longestRun (mark : Char) : (run : Nat) → Text → Nat
  | run, [] => run
  | run, character :: rest =>
      if character = mark then longestRun mark (run + 1) rest
      else max run (longestRun mark 0 rest)

/-- This function writes a text in the plainest kind of string that can hold it. -/
def write (text : Text) : Text :=
  let controls := text.any fun character => isControl character && character ≠ '\n'
  let newline := text.contains '\n'
  if !controls && !text.contains '\\' && !text.contains '"' && !newline then writeBasic text
  else if !controls && !text.contains '\'' && !newline then writeLiteral text
  else if !controls && !text.contains '\\' && longestRun '"' 0 text ≤ 2 then writeBasicLines text
  else if !controls && longestRun '\'' 0 text ≤ 2 then writeLiteralLines text
  else if newline then writeBasicLines text
  else writeBasic text

end Quoted

/-- Letters, digits, lines and dashes may stand in a key without quotes. -/
def isBare (character : Char) : Bool :=
  character.isAlphanum || character = '_' || character = '-'

namespace Key

/-- This function reads one part of a key. -/
def readPart? (text : Text) : Option (Text × Text) :=
  match text with
  | '"' :: rest => Quoted.readBasic? rest
  | '\'' :: rest => Quoted.readLiteral? rest
  | _ =>
      let bare := text.takeWhile isBare
      if bare.isEmpty then none else some (bare, text.dropWhile isBare)

/-- This function writes one part of a key, with quotes only where they are needed. -/
def writePart (text : Text) : Text :=
  let controls := text.any isControl
  if !text.isEmpty && text.all isBare then text
  else if !controls && !text.contains '\\' && !text.contains '"' then Quoted.writeBasic text
  else if !controls && !text.contains '\'' then Quoted.writeLiteral text
  else Quoted.writeBasic text

end Key

end FeatureLint.Toml
