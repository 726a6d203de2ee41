import FeatureLint.Document

/-!
This file holds the contents of a feature file as far as linters look at them: a feature with its
blocks and rules, the blocks with their examples tables. Steps, tags, comments, descriptions and doc
strings leave no trace. Main statement: laying a feature out as a document numbers its nodes from the
top of the file to the bottom, so every parent comes before its children.
-/

namespace FeatureLint

/-- A row of an examples table has one text for each cell. -/
structure Row where
  line : Nat
  cells : List Text
deriving DecidableEq, Repr

structure Examples where
  line : Nat
  name : Text
  rows : List Row
deriving DecidableEq, Repr

/-- Only an outline has examples. -/
inductive Block.Form where
  | background
  | scenario
  | outline (tables : List Examples)
deriving DecidableEq, Repr

/-- A block is a background, a scenario or a scenario outline. -/
structure Block where
  line : Nat
  name : Text
  form : Block.Form
deriving DecidableEq, Repr

structure Rule where
  line : Nat
  name : Text
  blocks : List Block
deriving DecidableEq, Repr

/-- A feature has its own blocks first and then its rules. -/
structure Feature where
  line : Nat
  name : Text
  blocks : List Block
  rules : List Rule
deriving DecidableEq, Repr

/-- This function lays several items out side by side when the first one starts at `next`. -/
def layoutAll {Item : Type} (layout : Nat → Item → List Branch) : (next : Nat) → List Item → List Branch
  | _, [] => []
  | next, item :: rest =>
      layout next item ++ layoutAll layout (next + (layout next item).length) rest

theorem grounded_layoutAll {Item : Type} {layout : Nat → Item → List Branch} {parent : Nat}
    (each : ∀ next item, parent < next → Grounded next (layout next item))
    (next : Nat) (items : List Item) (later : parent < next) :
    Grounded next (layoutAll layout next items) := by
  induction items generalizing next with
  | nil => trivial
  | cons item rest inductionHypothesis =>
      exact (grounded_append _ _ _).2 ⟨each next item later, inductionHypothesis _ (by omega)⟩

/-- The node `number` with the branches below it is grounded when they are. -/
theorem grounded_under {parent number : Nat} {node : Node} {below : List Branch}
    (later : parent < number) (grounded : Grounded (number + 1) below) :
    Grounded number (⟨parent, node⟩ :: below) :=
  ⟨later, grounded⟩

/-- A cell stands on the line of its row. -/
def Row.layoutCell (parent line _number : Nat) (value : Text) : List Branch :=
  [⟨parent, .cell value, line⟩]

theorem Row.grounded_layoutCell {parent line : Nat} (number : Nat) (value : Text)
    (later : parent < number) : Grounded number (layoutCell parent line number value) :=
  ⟨later, trivial⟩

/-- These are the branches of a row that gets the number `number`. -/
def Row.layout (parent number : Nat) (row : Row) : List Branch :=
  ⟨parent, .row, row.line⟩ :: layoutAll (layoutCell number row.line) (number + 1) row.cells

theorem Row.grounded_layout {parent : Nat} (number : Nat) (row : Row) (later : parent < number) :
    Grounded number (row.layout parent number) :=
  grounded_under later (grounded_layoutAll Row.grounded_layoutCell _ _ (Nat.lt_succ_self number))

def Examples.layout (parent number : Nat) (examples : Examples) : List Branch :=
  ⟨parent, .examples examples.name, examples.line⟩ ::
    layoutAll (Row.layout number) (number + 1) examples.rows

theorem Examples.grounded_layout {parent : Nat} (number : Nat) (examples : Examples)
    (later : parent < number) : Grounded number (examples.layout parent number) :=
  grounded_under later (grounded_layoutAll Row.grounded_layout _ _ (Nat.lt_succ_self number))

def Block.Form.kind (name : Text) : Block.Form → Kind
  | background => .background name
  | scenario => .scenario name
  | outline _ => .outline name

def Block.Form.tables : Block.Form → List Examples
  | background | scenario => []
  | outline tables => tables

def Block.layout (parent number : Nat) (block : Block) : List Branch :=
  ⟨parent, block.form.kind block.name, block.line⟩ ::
    layoutAll (Examples.layout number) (number + 1) block.form.tables

theorem Block.grounded_layout {parent : Nat} (number : Nat) (block : Block)
    (later : parent < number) : Grounded number (block.layout parent number) :=
  grounded_under later (grounded_layoutAll Examples.grounded_layout _ _ (Nat.lt_succ_self number))

def Rule.layout (parent number : Nat) (rule : Rule) : List Branch :=
  ⟨parent, .rule rule.name, rule.line⟩ :: layoutAll (Block.layout number) (number + 1) rule.blocks

theorem Rule.grounded_layout {parent : Nat} (number : Nat) (rule : Rule)
    (later : parent < number) : Grounded number (rule.layout parent number) :=
  grounded_under later (grounded_layoutAll Block.grounded_layout _ _ (Nat.lt_succ_self number))

def Feature.layout (parent number : Nat) (feature : Feature) : List Branch :=
  let blocks := layoutAll (Block.layout number) (number + 1) feature.blocks
  ⟨parent, .feature feature.name, feature.line⟩ ::
    (blocks ++ layoutAll (Rule.layout number) (number + 1 + blocks.length) feature.rules)

theorem Feature.grounded_layout {parent : Nat} (number : Nat) (feature : Feature)
    (later : parent < number) : Grounded number (feature.layout parent number) :=
  grounded_under later <| (grounded_append _ _ _).2
    ⟨grounded_layoutAll Block.grounded_layout _ _ (Nat.lt_succ_self number),
      grounded_layoutAll Rule.grounded_layout _ _ (by omega)⟩

/-- This is the document of a file, whose feature may be missing. -/
def Document.ofFeature (path : Path) (feature? : Option Feature) : Document :=
  ⟨⟨.file path, 1⟩, layoutAll (Feature.layout 0) 1 feature?.toList,
    grounded_layoutAll Feature.grounded_layout _ _ Nat.zero_lt_one⟩

end FeatureLint
