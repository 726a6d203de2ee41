import FeatureLint.Feature
import FeatureLint.Feature.Cells
import FeatureLint.Feature.ParseError

/-!
This file reads the lines of a feature file. Each function reads one part of the file from the lines
that are left and returns the part with the lines after it. A scenario whose block has examples is an
outline, so its first line is judged by looking ahead.
-/

namespace FeatureLint

namespace Examples

/-- This function reads the rows of an examples table. The first row fixes the width of the table. -/
def readRows (width? : Option Nat) : List Line → Except ParseError (List Row × List Line)
  | [] => .ok ([], [])
  | line :: rest =>
      match line.keyword? with
      | some .row =>
          let row : Row := ⟨line.number, Row.cellsOf line.content⟩
          let width := width?.getD row.cells.length
          if row.cells.length = width then
            match readRows (some width) rest with
            | .error error => .error error
            | .ok (rows, after) => .ok (row :: rows, after)
          else
            .error (.onLine line (.misalignedRow width row.cells.length))
      | some .step | some .fence => .error (.unexpected line "an examples table row".toList)
      | some .examples => .ok ([], line :: rest)
      | _ => if line.opensSection then .ok ([], line :: rest) else readRows width? rest

theorem length_readRows {width? : Option Nat} {lines after : List Line} {rows : List Row}
    (read : readRows width? lines = .ok (rows, after)) : after.length ≤ lines.length := by
  fun_induction readRows width? lines generalizing rows after
  all_goals grind

end Examples

namespace Block

/-- The first three characters of a fence line close the doc string that the line opens. -/
def fenceOf (line : Line) : Text :=
  line.content.take 3

/-- This function drops the lines of a doc string up to the line that closes it. -/
def skipDocString? (fence : Text) : List Line → Option (List Line)
  | [] => none
  | line :: rest =>
      if Text.startsWith line.content fence then some rest else skipDocString? fence rest

theorem length_skipDocString? {fence : Text} {lines after : List Line}
    (skipped : skipDocString? fence lines = some after) : after.length ≤ lines.length := by
  fun_induction skipDocString? fence lines
  all_goals grind

/-- This test looks ahead for examples before the next section. Lines of a doc string do not count. -/
def hasExamples (open? : Option Text) : List Line → Bool
  | [] => false
  | line :: rest =>
      match open?, line.keyword? with
      | some fence, _ =>
          hasExamples (if Text.startsWith line.content fence then none else some fence) rest
      | none, some .fence => hasExamples (some (fenceOf line)) rest
      | none, some .examples => true
      | none, _ => if line.opensSection then false else hasExamples none rest

/-- This function reads the lines under the first line of a block. Only an outline may hold
examples. -/
def readBody (isOutline : Bool) (lines : List Line) :
    Except ParseError (List Examples × List Line) :=
  match lines with
  | [] => .ok ([], [])
  | line :: rest =>
      match line.keyword? with
      | some .fence =>
          match _skipped : skipDocString? (fenceOf line) rest with
          | none => .error (.onLine line .unterminatedDocString)
          | some after => readBody isOutline after
      | some .examples =>
          if isOutline then
            match _read : Examples.readRows none rest with
            | .error error => .error error
            | .ok (rows, after) =>
                match readBody isOutline after with
                | .error error => .error error
                | .ok (tables, last) => .ok (⟨line.number, line.text, rows⟩ :: tables, last)
          else
            .error (.onLine line .examplesOutsideOutline)
      | _ => if line.opensSection then .ok ([], line :: rest) else readBody isOutline rest
termination_by lines.length
decreasing_by
  · exact Nat.lt_succ_of_le (length_skipDocString? _skipped)
  · exact Nat.lt_succ_of_le (Examples.length_readRows _read)
  · exact Nat.lt_succ_self _

theorem length_readBody {isOutline : Bool} {lines after : List Line} {tables : List Examples}
    (read : readBody isOutline lines = .ok (tables, after)) : after.length ≤ lines.length := by
  fun_induction readBody isOutline lines generalizing tables after
  all_goals grind [→ length_skipDocString?, → Examples.length_readRows]

/-- A scenario is an outline when it has examples. -/
def isOutline (line : Line) (rest : List Line) : Bool :=
  match line.keyword? with
  | some .background => false
  | some .outline => true
  | _ => hasExamples none rest

def formOf (line : Line) (isOutline : Bool) (tables : List Examples) : Form :=
  if line.keyword? = some .background then .background
  else if isOutline then .outline tables
  else .scenario

/-- This function reads the block that starts with the given line. -/
def read (line : Line) (rest : List Line) : Except ParseError (Block × List Line) :=
  match readBody (isOutline line rest) rest with
  | .error error => .error error
  | .ok (tables, after) =>
      .ok (⟨line.number, line.text, formOf line (isOutline line rest) tables⟩, after)

theorem length_read {line : Line} {rest after : List Line} {block : Block}
    (blockRead : read line rest = .ok (block, after)) : after.length ≤ rest.length := by
  unfold read at blockRead
  split at blockRead
  · contradiction
  · next bodyRead =>
      cases blockRead
      exact length_readBody bodyRead

/-- This function reads blocks up to the next rule or feature. The expected text is for the error on
a line that belongs to no block. -/
def readAll (expected : Text) (lines : List Line) : Except ParseError (List Block × List Line) :=
  match lines with
  | [] => .ok ([], [])
  | line :: rest =>
      match line.keyword? with
      | some .rule | some .feature => .ok ([], line :: rest)
      | some .examples => .error (.onLine line .examplesOutsideOutline)
      | some .step | some .row | some .fence => .error (.unexpected line expected)
      | _ =>
          if line.opensBlock then
            match _read : read line rest with
            | .error error => .error error
            | .ok (block, after) =>
                match readAll expected after with
                | .error error => .error error
                | .ok (blocks, last) => .ok (block :: blocks, last)
          else
            readAll expected rest
termination_by lines.length
decreasing_by
  · exact Nat.lt_succ_of_le (length_read _read)
  · exact Nat.lt_succ_self _

theorem length_readAll {expected : Text} {lines after : List Line} {blocks : List Block}
    (blocksRead : readAll expected lines = .ok (blocks, after)) : after.length ≤ lines.length := by
  fun_induction readAll expected lines generalizing blocks after
  all_goals grind [→ length_read]

end Block

/-- This function reads one rule after another as long as a rule comes next. -/
def Rule.readAll (lines : List Line) : Except ParseError (List Rule × List Line) :=
  match lines with
  | [] => .ok ([], [])
  | line :: rest =>
      if line.keyword? = some .rule then
        match _read : Block.readAll "a scenario or background".toList rest with
        | .error error => .error error
        | .ok (blocks, after) =>
            match Rule.readAll after with
            | .error error => .error error
            | .ok (rules, last) => .ok (⟨line.number, line.text, blocks⟩ :: rules, last)
      else
        .ok ([], line :: rest)
termination_by lines.length
decreasing_by exact Nat.lt_succ_of_le (Block.length_readAll _read)

namespace Feature

/-- This function reads the feature that starts with the given line. -/
def read (line : Line) (rest : List Line) : Except ParseError (Feature × List Line) :=
  match Block.readAll "a scenario, rule or background".toList rest with
  | .error error => .error error
  | .ok (blocks, after) =>
      match Rule.readAll after with
      | .error error => .error error
      | .ok (rules, last) => .ok (⟨line.number, line.text, blocks, rules⟩, last)

/-- Lines before the feature may be blank, comments or tags. -/
def isPreamble (line : Line) : Bool :=
  line.isBlank || line.keyword? = some .comment || line.keyword? = some .tag

/-- This function reads all lines of a file. A file without any feature is fine, but a second feature
is not. -/
def ofLines (lines : List Line) : Except ParseError (Option Feature) :=
  match lines.dropWhile isPreamble with
  | [] => .ok none
  | line :: rest =>
      if line.keyword? = some .feature then
        match read line rest with
        | .error error => .error error
        | .ok (feature, []) => .ok (some feature)
        | .ok (_, second :: _) => .error (.onLine second .duplicateFeature)
      else
        .error (.unexpected line Keyword.feature.description)

end Feature

/-- This function reads the source text of the file at the given path. -/
def Document.parse (path : Path) (source : Text) : Except ParseError Document :=
  (Feature.ofLines (Line.ofSource source)).map (Document.ofFeature path)

end FeatureLint
