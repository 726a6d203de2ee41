import FeatureLint.Toml.Scalar

/-!
This file reads a TOML text into its statements: the headers of tables, the headers of elements of
arrays of tables, and the pairs of keys and values.
-/

namespace FeatureLint.Toml

/-- Keys have fewer parts, and arrays and tables are nested less deep, than this. -/
def depthLimit : Nat := 80

namespace Key

/-- This function reads the parts of a key that follow a part, and each of them starts with a dot. -/
def readMore? : (limit : Nat) → Text → Option (List Text × Text)
  | 0, _ => none
  | limit + 1, text =>
      match Quoted.skipSpaces text with
      | '.' :: rest => do
          let (part, rest) ← readPart? (Quoted.skipSpaces rest)
          let (parts, last) ← readMore? limit rest
          return (part :: parts, last)
      | rest => some ([], rest)

/-- This function reads a key. There may be spaces around each part. -/
def read? (text : Text) : Option (List Text × Text) := do
  let (part, rest) ← readPart? (Quoted.skipSpaces text)
  let (parts, last) ← readMore? (depthLimit - 1) rest
  return (part :: parts, last)

/-- This is a key with dots between its parts. -/
def write (parts : List Text) : Text :=
  Text.joinWith ['.'] (parts.map writePart)

end Key

namespace Entries

/-- This function adds a pair whose key has the given parts before its last one. The parts name tables
that dotted keys made, or that they make now. A table with a header of its own is closed to them, and
so is a value. -/
def insert? : (before : List Text) → (last : Text) → Value → Entries → Option Entries
  | [], last, value, entries =>
      if (entries.lookup? last).isNone then some (entries.append last value) else none
  | key :: before, last, value, entries =>
      match entries.lookup? key with
      | none => do
          let below ← insert? before last value []
          return entries.append key (.table .dotted below)
      | some (.table origin below) => do
          if origin = .inline ∨ origin = .header ∨ (before.isEmpty ∧ origin ≠ .dotted) then none
          let below ← insert? before last value below
          return entries.replace key (.table origin below)
      | some (.array .header elements) => do
          let .table origin below ← elements.getLast? | none
          if before.isEmpty then none
          let below ← insert? before last value below
          return entries.replace key (.array .header (elements.dropLast ++ [.table origin below]))
      | some _ => none

/-- This function adds the pair of a whole key. -/
def insertAt? (key : List Text) (value : Value) (entries : Entries) : Option Entries := do
  insert? key.dropLast (← key.getLast?) value entries

end Entries

/-- This function drops spaces, newlines and comments. A comment ends in a newline. -/
def skipFiller? : (inComment : Bool) → Text → Option Text
  | _, [] => some []
  | _, '\n' :: rest => skipFiller? false rest
  | _, '\r' :: '\n' :: rest => skipFiller? false rest
  | true, character :: rest => if isPrintable character then skipFiller? true rest else none
  | false, character :: rest =>
      if Quoted.isSpace character then skipFiller? false rest
      else if character = '#' then skipFiller? true rest
      else some (character :: rest)

namespace Value

/-- This function reads the elements of an array up to its bracket. A comma may follow the last one. -/
def readElements? (read? : Text → Option (Value × Text)) : (limit : Nat) → Text → Option (List Value × Text)
  | 0, _ => none
  | limit + 1, text => do
      match ← skipFiller? false text with
      | ']' :: rest => return ([], rest)
      | text =>
          let (element, rest) ← read? text
          match ← skipFiller? false rest with
          | ']' :: rest => return ([element], rest)
          | ',' :: rest =>
              let (elements, last) ← readElements? read? limit rest
              return (element :: elements, last)
          | _ => none

/-- This function reads the pairs of an inline table up to its brace. No comma follows the last one. -/
def readPairs? (read? : Text → Option (Value × Text)) : (limit : Nat) → Entries → Text → Option (Entries × Text)
  | 0, _, _ => none
  | limit + 1, entries, text => do
      let (key, rest) ← Key.read? text
      let rest ← Text.afterLead? ['='] rest
      let (value, rest) ← read? (Quoted.skipSpaces rest)
      let entries ← entries.insertAt? key value
      match Quoted.skipSpaces rest with
      | '\x7d' :: rest => return (entries, rest)
      | ',' :: rest => readPairs? read? limit entries rest
      | _ => none

/-- This function reads a value in which arrays and tables are nested at most `depth` deep. -/
def read? : (depth : Nat) → Text → Option (Value × Text)
  | _, '"' :: rest => (Quoted.read? ('"' :: rest)).map fun (text, last) => (.string text, last)
  | _, '\'' :: rest => (Quoted.read? ('\'' :: rest)).map fun (text, last) => (.string text, last)
  | depth + 1, '[' :: rest =>
      (readElements? (read? depth) (rest.length + 1) rest).map fun (elements, last) =>
        (.array .inline elements, last)
  | depth + 1, '\x7b' :: rest =>
      match Quoted.skipSpaces rest with
      | '\x7d' :: last => some (.table .inline [], last)
      | _ =>
          (readPairs? (read? depth) (rest.length + 1) [] rest).map fun (entries, last) =>
            (.table .inline entries, last)
  | _, text => Scalar.read? text

end Value

inductive Statement where
  | table (key : List Text)
  | element (key : List Text)
  | pair (key : List Text) (value : Value)

namespace Statement

/-- This function reads the rest of a line, on which only a comment may stand. -/
def afterLine? (text : Text) : Option Text :=
  let text := Quoted.skipSpaces text
  let text := match text with
    | '#' :: rest => rest.dropWhile isPrintable
    | _ => text
  match text with
  | [] => some []
  | _ => Quoted.afterNewline? text

/-- This function reads one statement without the rest of its line. -/
def read? (text : Text) : Option (Statement × Text) :=
  match text with
  | '[' :: '[' :: rest => do
      let (key, rest) ← Key.read? rest
      return (.element key, ← Text.afterLead? [']', ']'] rest)
  | '[' :: rest => do
      let (key, rest) ← Key.read? rest
      return (.table key, ← Text.afterLead? [']'] rest)
  | _ => do
      let (key, rest) ← Key.read? text
      let rest ← Text.afterLead? ['='] rest
      let (value, rest) ← Value.read? (depthLimit - 1) (Quoted.skipSpaces rest)
      return (.pair key value, rest)

/-- This function reads at most `limit` lines or statements. -/
def readAll? : (limit : Nat) → Text → Option (List Statement)
  | 0, text => if text.isEmpty then some [] else none
  | limit + 1, text =>
      match Quoted.skipSpaces text with
      | [] => some []
      | character :: rest =>
          if character = '#' || character = '\n' || character = '\r' then do
            readAll? limit (← afterLine? (character :: rest))
          else do
            let (statement, rest) ← read? (character :: rest)
            let statements ← readAll? limit (← afterLine? rest)
            return statement :: statements

/-- A mark of the byte order may stand in front of the text. -/
def skipByteOrderMark : Text → Text
  | '\uFEFF' :: rest => rest
  | text => text

def ofText? (text : Text) : Option (List Statement) :=
  readAll? (text.length + 1) (skipByteOrderMark text)

end Statement

end FeatureLint.Toml
