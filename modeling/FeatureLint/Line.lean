import FeatureLint.Line.Keyword
import FeatureLint.Span
import FeatureLint.Text.Blank

/-!
This file reads a source text line by line. Each line is trimmed, and its leading keyword says what
it is. A `LineReader` stands between two lines of the source and knows what is still to be read.
-/

namespace FeatureLint

structure Line where
  /-- Lines are counted from one. -/
  number : Nat
  /-- Blank lines and free text have no keyword. -/
  keyword? : Option Keyword
  /-- This is the trimmed line with its keyword. -/
  content : Text
  /-- This is the trimmed text after the keyword. -/
  text : Text
  /-- These are the bytes of the content in the source. -/
  span : Span
deriving DecidableEq, Repr

namespace Line

/-- This function classifies one raw line that starts at the given byte of the source. -/
def read (number offset : Nat) (raw : Text) : Line :=
  let content := Text.trim raw
  let start := offset + (Text.byteLength raw - Text.byteLength (Text.trimStart raw))
  let span := ⟨start, start + Text.byteLength content⟩
  match Keyword.read? content with
  | some (keyword, rest) => ⟨number, some keyword, content, Text.trim rest, span⟩
  | none => ⟨number, none, content, content, span⟩

def isBlank (line : Line) : Bool :=
  line.content.isEmpty

/-- A line without structure is blank, free text, a comment or a tag. -/
def isTrivia (line : Line) : Bool :=
  match line.keyword? with
  | none | some .comment | some .tag => true
  | _ => false

def opensBlock (line : Line) : Bool :=
  line.keyword?.any Keyword.opensBlock

def opensSection (line : Line) : Bool :=
  line.keyword?.any Keyword.opensSection

end Line

/-- A reader holds the unread source, the byte where it starts and the lines read so far. -/
structure LineReader where
  rest : Text
  offset : Nat
  number : Nat

namespace LineReader

def start (source : Text) : LineReader :=
  ⟨source, 0, 0⟩

/-- This function reads one line and fails at the end of the source. -/
def next? (reader : LineReader) : Option (Line × LineReader) :=
  match reader.rest with
  | [] => none
  | character :: rest =>
      let raw := Text.firstLine (character :: rest)
      some (Line.read (reader.number + 1) reader.offset raw,
        ⟨Text.afterFirstLine (character :: rest), reader.offset + Text.byteLength raw,
          reader.number + 1⟩)

theorem length_rest_of_next? {reader after : LineReader} {line : Line}
    (read : reader.next? = some (line, after)) : after.rest.length < reader.rest.length := by
  unfold next? at read
  split at read
  · contradiction
  · next character rest unread =>
      cases read
      rw [unread]
      exact Text.length_afterFirstLine_lt character rest

/-- These are the lines that are still to be read. -/
def lines (reader : LineReader) : List Line :=
  match _read : reader.next? with
  | none => []
  | some (line, after) => line :: after.lines
termination_by reader.rest.length
decreasing_by exact length_rest_of_next? _read

end LineReader

/-- These are the lines of a source text. -/
def Line.ofSource (source : Text) : List Line :=
  (LineReader.start source).lines

end FeatureLint
