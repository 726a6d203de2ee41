import FeatureLint.Proofs.Growth
import FeatureLint.Proofs.Lines

/-!
This file says what the readers of a feature file return. A part of a feature is proper when its names
are trimmed and stand on one line, its cells are trimmed and the rows of each table are equally long.
Main statement: what is read from the lines of a source is proper.
-/

namespace FeatureLint

/-- A name is trimmed and stands on one line. -/
def Text.IsName (text : Text) : Prop :=
  trim text = text ∧ '\n' ∉ text

instance (text : Text) : Decidable (Text.IsName text) :=
  inferInstanceAs (Decidable (_ ∧ _))

def Row.Proper (row : Row) : Prop :=
  ∀ cell ∈ row.cells, Text.trim cell = cell

structure Examples.Proper (examples : Examples) : Prop where
  name : Text.IsName examples.name
  rows : ∀ row ∈ examples.rows, row.Proper
  aligned : ∃ width, ∀ row ∈ examples.rows, row.cells.length = width

structure Block.Proper (block : Block) : Prop where
  name : Text.IsName block.name
  tables : ∀ table ∈ block.form.tables, table.Proper

structure Rule.Proper (rule : Rule) : Prop where
  name : Text.IsName rule.name
  blocks : ∀ block ∈ rule.blocks, block.Proper

structure Feature.Proper (feature : Feature) : Prop where
  name : Text.IsName feature.name
  blocks : ∀ block ∈ feature.blocks, block.Proper
  rules : ∀ rule ∈ feature.rules, rule.Proper

/-- The text of a kind is neat when a name is one and the value of a cell is trimmed. -/
def Kind.Neat (kind : Kind) : Prop :=
  (∀ name ∈ kind.name?, Text.IsName name) ∧ ∀ value ∈ kind.value?, Text.trim value = value

/-- A kind with a name has no value, so only the name has to be one. -/
theorem Kind.neat_of_name? {kind : Kind} {name : Text} (named : kind.name? = some name)
    (isName : Text.IsName name) : kind.Neat := by
  constructor
  · intro other same
    cases named.symm.trans same
    exact isName
  · have missing : kind.value? = none := by cases kind <;> first | rfl | cases named
    rw [missing]
    exact nofun

/-- The name of a block is the name of its kind, whatever its form. -/
@[simp] theorem Block.Form.name?_kind (name : Text) (form : Block.Form) :
    (form.kind name).name? = some name := by
  cases form <;> rfl

/-- Every cell of a row is trimmed. -/
theorem Row.trim_of_mem_cellsFrom {opened : Bool} {cell content value : Text}
    (member : value ∈ cellsFrom opened cell content) : Text.trim value = value := by
  fun_induction cellsFrom opened cell content
  all_goals grind [Text.trim_trim]

namespace Examples

/-- What the reader of rows leaves, it was given. -/
theorem mem_of_mem_readRows {width? : Option Nat} {lines after : List Line} {rows : List Row}
    (read : readRows width? lines = .ok (rows, after)) {line : Line} (member : line ∈ after) :
    line ∈ lines := by
  fun_induction readRows width? lines generalizing rows after
  all_goals grind

/-- The cells are trimmed, and all rows are as wide as the first one or as the rows before them. -/
theorem aligned_readRows {width? : Option Nat} {lines after : List Line} {rows : List Row}
    (read : readRows width? lines = .ok (rows, after)) :
    (∀ row ∈ rows, row.Proper) ∧
      ∃ width, (∀ fixed, width? = some fixed → fixed = width) ∧
        ∀ row ∈ rows, row.cells.length = width := by
  have empty (width? : Option Nat) : (∀ row ∈ ([] : List Row), row.Proper) ∧
      ∃ width, (∀ fixed, width? = some fixed → fixed = width) ∧
        ∀ row ∈ ([] : List Row), row.cells.length = width :=
    ⟨List.forall_mem_nil _, width?.getD 0, fun _ found => by rw [found]; rfl, List.forall_mem_nil _⟩
  fun_induction readRows width? lines generalizing rows with
  | case1 width? =>
      cases read
      exact empty width?
  | case3 width? line rest isRow row width fits others last rowsRead =>
      rename_i inductionHypothesis
      cases read
      obtain ⟨proper, fixed, same, equal⟩ := inductionHypothesis rowsRead
      cases same width rfl
      refine ⟨List.forall_mem_cons.2 ⟨fun _ => Row.trim_of_mem_cellsFrom, proper⟩, width, ?_,
        List.forall_mem_cons.2 ⟨fits, equal⟩⟩
      intro fixed found
      simp only [width, found, Option.getD_some]
  | case7 width? line rest isExamples =>
      cases read
      exact empty width?
  | case8 width? line rest opens =>
      cases read
      exact empty width?
  | case9 width? line rest _ _ _ _ _ inductionHypothesis => exact inductionHypothesis read
  | _ => cases read

end Examples

namespace Block

/-- What follows a doc string is part of the lines that it was found in. -/
theorem mem_of_mem_skipDocString? {fence : Text} {lines after : List Line}
    (skipped : skipDocString? fence lines = some after) {line : Line} (member : line ∈ after) :
    line ∈ lines := by
  fun_induction skipDocString? fence lines
  all_goals grind

/-- What the reader of a body leaves, it was given. -/
theorem mem_of_mem_readBody {isOutline : Bool} {lines after : List Line} {tables : List Examples}
    (read : readBody isOutline lines = .ok (tables, after)) {line : Line} (member : line ∈ after) :
    line ∈ lines := by
  fun_induction readBody isOutline lines generalizing tables after
  all_goals grind [→ mem_of_mem_skipDocString?, → Examples.mem_of_mem_readRows]

/-- The tables of a body are proper. -/
theorem proper_readBody {isOutline : Bool} {lines after : List Line} {tables : List Examples}
    (read : readBody isOutline lines = .ok (tables, after))
    (names : ∀ line ∈ lines, Text.IsName line.text) : ∀ table ∈ tables, table.Proper := by
  fun_induction readBody isOutline lines generalizing tables with
  | case3 line rest isFence afterDoc skipped inductionHypothesis =>
      refine inductionHypothesis read fun later member => names later ?_
      exact List.mem_cons_of_mem _ (mem_of_mem_skipDocString? skipped member)
  | case6 line rest isExamples outline rows afterRows rowsRead others last bodyRead
      inductionHypothesis =>
      cases read
      obtain ⟨rowsProper, width, -, equal⟩ := Examples.aligned_readRows rowsRead
      refine List.forall_mem_cons.2 ⟨⟨names line List.mem_cons_self, rowsProper, width, equal⟩, ?_⟩
      refine inductionHypothesis bodyRead fun later member => names later ?_
      exact List.mem_cons_of_mem _ (Examples.mem_of_mem_readRows rowsRead member)
  | case9 line rest opensNothing notFence notExamples inductionHypothesis =>
      exact inductionHypothesis read (List.forall_mem_cons.1 names).2
  | _ => cases read <;> exact List.forall_mem_nil _

/-- What the reader of a block leaves, it was given. -/
theorem mem_of_mem_read {line : Line} {rest after : List Line} {block : Block}
    (blockRead : read line rest = .ok (block, after)) {later : Line} (member : later ∈ after) :
    later ∈ rest := by
  unfold read at blockRead
  split at blockRead
  · contradiction
  · next bodyRead =>
      cases blockRead
      exact mem_of_mem_readBody bodyRead member

/-- A block is proper when the texts of its lines are names. -/
theorem proper_read {line : Line} {rest after : List Line} {block : Block}
    (blockRead : read line rest = .ok (block, after))
    (names : ∀ later ∈ line :: rest, Text.IsName later.text) : block.Proper := by
  unfold read at blockRead
  split at blockRead
  · contradiction
  · next tables last bodyRead =>
      cases blockRead
      refine ⟨names line List.mem_cons_self, ?_⟩
      rw [Above.tables_formOf bodyRead]
      exact proper_readBody bodyRead (List.forall_mem_cons.1 names).2

/-- What the reader of blocks leaves, it was given. -/
theorem mem_of_mem_readAll {expected : Text} {lines after : List Line} {blocks : List Block}
    (blocksRead : readAll expected lines = .ok (blocks, after)) {line : Line}
    (member : line ∈ after) : line ∈ lines := by
  fun_induction readAll expected lines generalizing blocks after
  all_goals grind [→ mem_of_mem_read]

/-- All blocks of a section are proper. -/
theorem proper_readAll {expected : Text} {lines after : List Line} {blocks : List Block}
    (blocksRead : readAll expected lines = .ok (blocks, after))
    (names : ∀ line ∈ lines, Text.IsName line.text) : ∀ block ∈ blocks, block.Proper := by
  fun_induction readAll expected lines generalizing blocks with
  | case10 line rest opens first afterFirst firstRead others last othersRead _ _ _ _ _ _
      inductionHypothesis =>
      cases blocksRead
      refine List.forall_mem_cons.2 ⟨proper_read firstRead names, ?_⟩
      refine inductionHypothesis othersRead fun later member => names later ?_
      exact List.mem_cons_of_mem _ (mem_of_mem_read firstRead member)
  | case11 line rest opensNoBlock _ _ _ _ _ _ inductionHypothesis =>
      exact inductionHypothesis blocksRead (List.forall_mem_cons.1 names).2
  | _ => cases blocksRead <;> exact List.forall_mem_nil _

end Block

/-- All rules of a feature are proper. -/
theorem Rule.proper_readAll {lines after : List Line} {rules : List Rule}
    (rulesRead : readAll lines = .ok (rules, after))
    (names : ∀ line ∈ lines, Text.IsName line.text) : ∀ rule ∈ rules, rule.Proper := by
  fun_induction readAll lines generalizing rules with
  | case4 line rest isRule blocks afterBlocks blocksRead others last othersRead
      inductionHypothesis =>
      cases rulesRead
      obtain ⟨name, restNames⟩ := List.forall_mem_cons.1 names
      refine List.forall_mem_cons.2 ⟨⟨name, Block.proper_readAll blocksRead restNames⟩, ?_⟩
      exact inductionHypothesis othersRead fun later member =>
        restNames later (Block.mem_of_mem_readAll blocksRead member)
  | _ => cases rulesRead <;> exact List.forall_mem_nil _

namespace Feature

/-- A feature is proper when the texts of its lines are names. -/
theorem proper_read {line : Line} {rest after : List Line} {feature : Feature}
    (featureRead : read line rest = .ok (feature, after))
    (names : ∀ later ∈ line :: rest, Text.IsName later.text) : feature.Proper := by
  obtain ⟨name, restNames⟩ := List.forall_mem_cons.1 names
  unfold read at featureRead
  split at featureRead
  · contradiction
  · next blocks afterBlocks blocksRead =>
      split at featureRead
      · contradiction
      · next rules last rulesRead =>
          cases featureRead
          refine ⟨name, Block.proper_readAll blocksRead restNames, ?_⟩
          exact Rule.proper_readAll rulesRead fun later member =>
            restNames later (Block.mem_of_mem_readAll blocksRead member)

/-- What is read from lines with proper texts is proper. -/
theorem proper_ofLines {lines : List Line} {feature? : Option Feature}
    (featureRead : ofLines lines = .ok feature?)
    (names : ∀ line ∈ lines, Text.IsName line.text) : ∀ feature ∈ feature?, feature.Proper := by
  unfold ofLines at featureRead
  split at featureRead
  · cases featureRead
    intro _ missing
    cases missing
  · next line rest left =>
      have names : ∀ later ∈ line :: rest, Text.IsName later.text := by
        intro later member
        exact names later (List.dropWhile_subset _ (left ▸ member))
      split at featureRead
      · split at featureRead
        · contradiction
        · next feature readFeature =>
            cases featureRead
            intro feature same
            cases same
            exact proper_read readFeature names
        · contradiction
      · contradiction

end Feature

end FeatureLint
