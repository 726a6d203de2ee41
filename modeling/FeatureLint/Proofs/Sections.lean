import FeatureLint.Proofs.Growth
import Mathlib.Data.List.TakeWhile

/-!
This file finds the sections of a feature file among its lines. The body of a block reaches to the next
line that opens a section, and each line of examples in it starts a table, whose rows come before the
next line of examples. Main statement: every block that was read from the lines outside doc strings
stands behind the line of its own rule, and its tables are those of the lines of its body.
-/

namespace FeatureLint

/-- A longer run of lines is dropped at once. -/
theorem dropWhile_dropWhile_of_imp {Item : Type} {first second : Item → Bool}
    (longer : ∀ item, first item = true → second item = true) (items : List Item) :
    (items.dropWhile first).dropWhile second = items.dropWhile second := by
  induction items with
  | nil => rfl
  | cons item rest inductionHypothesis =>
      cases dropped : first item with
      | false => rw [List.dropWhile_cons_of_neg (by simp [dropped])]
      | true =>
          rw [List.dropWhile_cons_of_pos dropped, inductionHypothesis,
            List.dropWhile_cons_of_pos (longer item dropped)]

namespace Line

/-- This is the text of the last rule. -/
def lastRule? (lines : List Line) : Option Text :=
  ((lines.filter fun line => line.keyword? = some .rule).getLast?).map Line.text

/-- These are the cells of all rows. -/
def rowCells (lines : List Line) : List (List Text) :=
  (lines.filter fun line => line.keyword? = some .row).map fun line => Row.cellsOf line.content

/-- Each line of examples starts a table, and the rows up to the next line of examples are its own. -/
def tables : List Line → List (List (List Text))
  | [] => []
  | line :: rest =>
      if line.keyword? = some .examples then
        rowCells (rest.takeWhile fun later => later.keyword? ≠ some .examples) :: tables rest
      else
        tables rest

/-- The body of a block ends before the next section. -/
def body (lines : List Line) : List Line :=
  lines.takeWhile fun line => !line.opensSection

/-- This test asks for the lines that the blocks of a feature or a rule reach to. -/
def endsBlocks (line : Line) : Bool :=
  line.keyword? = some .rule || line.keyword? = some .feature

/-- The last rule of two pieces is that of the second one, if there is any. -/
theorem lastRule?_append (first second : List Line) :
    lastRule? (first ++ second) = (lastRule? second).or (lastRule? first) := by
  rw [lastRule?, List.filter_append, List.getLast?_append, Option.map_or]
  rfl

/-- Lines without a rule have no last one. -/
theorem lastRule?_eq_none {lines : List Line} (others : ∀ line ∈ lines, line.keyword? ≠ some .rule) :
    lastRule? lines = none := by
  have noRule : lines.filter (fun line => line.keyword? = some .rule) = [] :=
    List.filter_eq_nil_iff.2 fun line member => by simp [others line member]
  rw [lastRule?, noRule]
  rfl

theorem lastRule?_singleton {line : Line} (isRule : line.keyword? = some .rule) :
    lastRule? [line] = some line.text := by
  simp [lastRule?, isRule]

/-- What ends the blocks of a section is a heading. -/
theorem opensSection_of_endsBlocks {line : Line} (ends : line.endsBlocks = true) :
    line.opensSection = true := by
  simp only [endsBlocks, Bool.or_eq_true, decide_eq_true_eq] at ends
  rcases ends with found | found <;> simp [opensSection, found, Keyword.opensSection]

/-- Only rules and features end the blocks of a section. -/
theorem endsBlocks_eq_false {line : Line} (notRule : line.keyword? ≠ some .rule)
    (notFeature : line.keyword? ≠ some .feature) : line.endsBlocks = false := by
  simp [endsBlocks, notRule, notFeature]

/-- A body ends at a heading. -/
theorem body_cons_of_opensSection {line : Line} (opens : line.opensSection = true)
    (rest : List Line) : body (line :: rest) = [] :=
  List.takeWhile_cons_of_neg (by simp [opens])

theorem body_cons {line : Line} (opensNothing : ¬ line.opensSection = true) (rest : List Line) :
    body (line :: rest) = line :: body rest :=
  List.takeWhile_cons_of_pos (by simp [opensNothing])

/-- A line without examples starts no table. -/
theorem tables_cons_of_other {line : Line} (other : line.keyword? ≠ some .examples)
    (rest : List Line) : tables (line :: rest) = tables rest := by
  rw [tables, if_neg other]

/-- The lines before the first heading have no tables. -/
theorem tables_body_dropWhile (lines : List Line) :
    tables (body (lines.dropWhile fun line => !line.isHeading)) = tables (body lines) := by
  induction lines with
  | nil => rfl
  | cons line rest inductionHypothesis =>
      cases heading : line.isHeading with
      | true => rw [List.dropWhile_cons_of_neg (by simp [heading])]
      | false =>
          obtain ⟨opensNothing, other⟩ : line.opensSection = false ∧
              line.keyword? ≠ some .examples := by
            simpa [isHeading] using heading
          rw [List.dropWhile_cons_of_pos (by simp [heading]), inductionHypothesis,
            body_cons (by simp [opensNothing]), tables_cons_of_other other]

/-- A table reaches to the next heading. -/
theorem tables_body_cons_examples {line : Line} (isExamples : line.keyword? = some .examples)
    (rest : List Line) :
    tables (body (line :: rest)) =
      rowCells (rest.takeWhile fun later => !later.isHeading) ::
        tables (body (rest.dropWhile fun later => !later.isHeading)) := by
  have opensNothing : ¬ line.opensSection = true := by
    simp [opensSection, isExamples, Keyword.opensSection, Keyword.opensBlock]
  have reach : (body rest).takeWhile (fun later => later.keyword? ≠ some .examples) =
      rest.takeWhile fun later => !later.isHeading := by
    rw [body, List.takeWhile_takeWhile]
    congr 1
    funext later
    simp [isHeading, Bool.and_comm]
  rw [body_cons opensNothing, tables, if_pos isExamples, reach, tables_body_dropWhile]

end Line

/-- The rows of a table are the rows among the lines up to the next heading. -/
theorem Examples.rowCells_of_readRows {width? : Option Nat} {lines after : List Line}
    {rows : List Row} (read : readRows width? lines = .ok (rows, after)) :
    Line.rowCells ((Line.outside none lines).takeWhile fun line => !line.isHeading) =
        rows.map Row.cells ∧
      (Line.outside none lines).dropWhile (fun line => !line.isHeading) =
        Line.outside none after := by
  have atHeading {line : Line} (rest : List Line) (heading : line.isHeading = true) :
      Line.rowCells ((Line.outside none (line :: rest)).takeWhile fun line => !line.isHeading) = [] ∧
        (Line.outside none (line :: rest)).dropWhile (fun line => !line.isHeading) =
          Line.outside none (line :: rest) := by
    rw [Line.outside_of_not_fence rest (Line.keyword?_ne_of_isHeading heading).1,
      List.takeWhile_cons_of_neg (by simp [heading]), List.dropWhile_cons_of_neg (by simp [heading])]
    exact ⟨rfl, rfl⟩
  fun_induction readRows width? lines generalizing rows with
  | case1 =>
      cases read
      exact ⟨rfl, rfl⟩
  | case3 width? line rest isRow row width fits others last rowsRead =>
      rename_i inductionHypothesis
      cases read
      obtain ⟨cells, left⟩ := inductionHypothesis rowsRead
      have other : line.isHeading = false := by
        simp [Line.isHeading, Line.opensSection, isRow, Keyword.opensSection, Keyword.opensBlock]
      rw [Line.outside_of_not_fence rest (by simp [isRow]),
        List.takeWhile_cons_of_pos (by simp [other]), List.dropWhile_cons_of_pos (by simp [other]),
        Line.rowCells, List.filter_cons_of_pos (by simp [isRow]), List.map_cons, List.map_cons, ← cells]
      exact ⟨rfl, left⟩
  | case7 width? line rest isExamples =>
      cases read
      exact atHeading rest (by simp [Line.isHeading, isExamples])
  | case8 width? line rest opens =>
      cases read
      exact atHeading rest (Line.isHeading_of_opensSection opens)
  | case9 width? line rest opensNothing notRow notStep notFence notExamples inductionHypothesis =>
      have other := Line.isHeading_eq_false opensNothing notExamples
      obtain ⟨cells, left⟩ := inductionHypothesis read
      rw [Line.outside_of_not_fence rest notFence, List.takeWhile_cons_of_pos (by simp [other]),
        List.dropWhile_cons_of_pos (by simp [other]), Line.rowCells,
        List.filter_cons_of_neg (by simpa using notRow)]
      exact ⟨cells, left⟩
  | _ => cases read

namespace Block

/-- These are the cells of all tables of a block. -/
def tableCells (block : Block) : List (List (List Text)) :=
  block.form.tables.map fun table => table.rows.map Row.cells

/-- The tables of a body are those of the lines up to the next section. -/
theorem tables_of_readBody {isOutline : Bool} {lines after : List Line} {tables : List Examples}
    (read : readBody isOutline lines = .ok (tables, after)) :
    Line.tables (Line.body (Line.outside none lines)) =
        tables.map (fun table => table.rows.map Row.cells) ∧
      (Line.outside none lines).dropWhile (fun line => !line.opensSection) =
        Line.outside none after := by
  fun_induction readBody isOutline lines generalizing tables with
  | case1 =>
      cases read
      exact ⟨rfl, rfl⟩
  | case3 line rest isFence afterDoc skipped inductionHypothesis =>
      rw [Line.outside, if_pos isFence, ← fenceOf, Line.outside_of_skipDocString? skipped]
      exact inductionHypothesis read
  | case6 line rest isExamples outline rows afterRows rowsRead others last bodyRead
      inductionHypothesis =>
      cases read
      obtain ⟨cells, leftByRows⟩ := Examples.rowCells_of_readRows rowsRead
      obtain ⟨otherTables, leftByBody⟩ := inductionHypothesis bodyRead
      have opensNothing : line.opensSection = false := by
        simp [Line.opensSection, isExamples, Keyword.opensSection, Keyword.opensBlock]
      have shorter (later : Line) (other : (!later.isHeading) = true) :
          (!later.opensSection) = true := by
        simp only [Line.isHeading, Bool.not_or, Bool.and_eq_true] at other
        exact other.1
      rw [Line.outside_of_not_fence rest (by simp [isExamples]),
        Line.tables_body_cons_examples isExamples, cells, leftByRows, otherTables,
        List.dropWhile_cons_of_pos (by simp [opensNothing]), ← dropWhile_dropWhile_of_imp shorter,
        leftByRows]
      exact ⟨rfl, leftByBody⟩
  | case8 line rest opens notFence notExamples =>
      cases read
      rw [Line.outside_of_not_fence rest notFence, Line.body_cons_of_opensSection opens,
        List.dropWhile_cons_of_neg (by simp [opens])]
      exact ⟨rfl, rfl⟩
  | case9 line rest opensNothing notFence notExamples inductionHypothesis =>
      rw [Line.outside_of_not_fence rest notFence, Line.body_cons opensNothing,
        Line.tables_cons_of_other notExamples, List.dropWhile_cons_of_pos (by simp [opensNothing])]
      exact inductionHypothesis read
  | _ => cases read

/-- A block stands among the lines when one of them has its number, the last rule before that line is
its own, and the body after that line has its tables. -/
def StandsIn (block : Block) (rule? : Option Text) (lines : List Line) : Prop :=
  ∃ before line after, lines = before ++ line :: after ∧ line.number = block.line ∧
    Line.lastRule? before = rule? ∧ Line.tables (Line.body after) = block.tableCells

/-- Lines before all others matter only to a block without a rule. -/
theorem StandsIn.prepend {block : Block} {rule? : Option Text} {lines : List Line}
    (stands : block.StandsIn rule? lines) (earlier : List Line) :
    block.StandsIn (rule?.or (Line.lastRule? earlier)) (earlier ++ lines) := by
  obtain ⟨before, line, after, rfl, number, rfl, tables⟩ := stands
  refine ⟨earlier ++ before, line, after, ?_, number, ?_, tables⟩
  · rw [List.append_assoc]
  · exact Line.lastRule?_append earlier before

/-- Lines without any rule change nothing. -/
theorem StandsIn.prepend_of_no_rule {block : Block} {rule? : Option Text} {lines earlier : List Line}
    (stands : block.StandsIn rule? lines)
    (noRule : ∀ line ∈ earlier, line.keyword? ≠ some .rule) :
    block.StandsIn rule? (earlier ++ lines) := by
  have moved := stands.prepend earlier
  rwa [Line.lastRule?_eq_none noRule, Option.or_none] at moved

/-- A line in front that is no rule does not change where a block stands. -/
theorem StandsIn.cons {block : Block} {rule? : Option Text} {line : Line} {lines : List Line}
    (stands : block.StandsIn rule? lines) (notRule : line.keyword? ≠ some .rule) :
    block.StandsIn rule? (line :: lines) :=
  stands.prepend_of_no_rule (List.forall_mem_singleton.2 notRule)

/-- Lines in front without a rule do not change where a block stands. -/
theorem StandsIn.of_dropWhile {block : Block} {rule? : Option Text} {lines : List Line}
    {skips : Line → Bool} (stands : block.StandsIn rule? (lines.dropWhile skips))
    (noRule : ∀ line, skips line = true → line.keyword? ≠ some .rule) :
    block.StandsIn rule? lines := by
  rw [← List.takeWhile_append_dropWhile (p := skips) (l := lines)]
  exact stands.prepend_of_no_rule fun line member => noRule line (List.mem_takeWhile_imp member)

/-- A block that is read from some lines stands at the first of them. -/
theorem standsIn_of_read {line : Line} {rest after : List Line} {block : Block}
    (opens : line.opensBlock = true) (blockRead : read line rest = .ok (block, after)) :
    block.StandsIn none (Line.outside none (line :: rest)) ∧
      (Line.outside none rest).dropWhile (fun line => !line.opensSection) =
        Line.outside none after := by
  have heading := Line.isHeading_of_opensSection (Line.opensSection_of_opensBlock opens)
  rw [Line.outside_of_not_fence rest (Line.keyword?_ne_of_isHeading heading).1]
  unfold read at blockRead
  split at blockRead
  · contradiction
  · next tables last bodyRead =>
      cases blockRead
      obtain ⟨bodyTables, left⟩ := tables_of_readBody bodyRead
      refine ⟨⟨[], line, Line.outside none rest, rfl, rfl, rfl, ?_⟩, left⟩
      rw [bodyTables, tableCells, Above.tables_formOf bodyRead]

/-- The blocks of a section stand among its lines, which reach to the next rule or feature. -/
theorem standsIn_of_readAll {expected : Text} {lines after : List Line} {blocks : List Block}
    (blocksRead : readAll expected lines = .ok (blocks, after)) :
    (∀ block ∈ blocks, block.StandsIn none (Line.outside none lines)) ∧
      (Line.outside none lines).dropWhile (fun line => !line.endsBlocks) =
        Line.outside none after := by
  have atEnd {line : Line} (rest : List Line) (ends : line.endsBlocks = true) :
      (Line.outside none (line :: rest)).dropWhile (fun line => !line.endsBlocks) =
        Line.outside none (line :: rest) := by
    have heading := Line.isHeading_of_opensSection (Line.opensSection_of_endsBlocks ends)
    rw [Line.outside_of_not_fence rest (Line.keyword?_ne_of_isHeading heading).1,
      List.dropWhile_cons_of_neg (by simp [ends])]
  fun_induction readAll expected lines generalizing blocks with
  | case1 =>
      cases blocksRead
      exact ⟨List.forall_mem_nil _, rfl⟩
  | case2 line rest isRule =>
      cases blocksRead
      exact ⟨List.forall_mem_nil _, atEnd rest (by simp [Line.endsBlocks, isRule])⟩
  | case3 line rest isFeature =>
      cases blocksRead
      exact ⟨List.forall_mem_nil _, atEnd rest (by simp [Line.endsBlocks, isFeature])⟩
  | case10 line rest opens first afterFirst firstRead others last othersRead notRule notFeature _ _ _
      notFence inductionHypothesis =>
      cases blocksRead
      obtain ⟨firstStands, leftByFirst⟩ := standsIn_of_read opens firstRead
      obtain ⟨othersStand, leftByOthers⟩ := inductionHypothesis othersRead
      have shorter (later : Line) (other : (!later.opensSection) = true) :
          (!later.endsBlocks) = true := by
        cases ends : later.endsBlocks with
        | false => rfl
        | true => simp [Line.opensSection_of_endsBlocks ends] at other
      constructor
      · refine List.forall_mem_cons.2 ⟨firstStands, fun block member => ?_⟩
        have stands := othersStand block member
        rw [← leftByFirst] at stands
        rw [Line.outside_of_not_fence rest notFence]
        refine (stands.of_dropWhile fun later other isRule => ?_).cons notRule
        simp [Line.opensSection, isRule, Keyword.opensSection] at other
      · rw [Line.outside_of_not_fence rest notFence,
          List.dropWhile_cons_of_pos (by simp [Line.endsBlocks_eq_false notRule notFeature]),
          ← dropWhile_dropWhile_of_imp shorter, leftByFirst, leftByOthers]
  | case11 line rest opensNoBlock notRule notFeature notExamples notStep notRow notFence
      inductionHypothesis =>
      obtain ⟨stand, left⟩ := inductionHypothesis blocksRead
      rw [Line.outside_of_not_fence rest notFence,
        List.dropWhile_cons_of_pos (by simp [Line.endsBlocks_eq_false notRule notFeature])]
      exact ⟨fun block member => (stand block member).cons notRule, left⟩
  | _ => cases blocksRead

end Block

/-- The blocks of all rules stand behind the lines of their rules. -/
theorem Rule.standsIn_of_readAll {lines : List Line} {rules : List Rule}
    (rulesRead : readAll lines = .ok (rules, [])) :
    ∀ rule ∈ rules, ∀ block ∈ rule.blocks,
      block.StandsIn (some rule.name) (Line.outside none lines) := by
  fun_induction readAll lines generalizing rules with
  | case1 =>
      cases rulesRead
      exact List.forall_mem_nil _
  | case4 line rest isRule blocks after blocksRead others last othersRead inductionHypothesis =>
      cases rulesRead
      obtain ⟨stand, left⟩ := Block.standsIn_of_readAll blocksRead
      rw [Line.outside_of_not_fence rest (by simp [isRule])]
      refine List.forall_mem_cons.2 ⟨?_, ?_⟩
      · intro block member
        have moved := (stand block member).prepend [line]
        rwa [Line.lastRule?_singleton isRule] at moved
      · intro rule inRules block member
        have stands := inductionHypothesis othersRead rule inRules block member
        rw [← left] at stands
        -- The rule of the block comes later than the lines that are put before it.
        have moved := stands.prepend
          (line :: (Line.outside none rest).takeWhile fun later => !later.endsBlocks)
        rwa [List.cons_append, List.takeWhile_append_dropWhile] at moved
  | _ => cases rulesRead

namespace Feature

/-- These are the blocks of a feature, each with the name of its rule. -/
def scopedBlocks (feature : Feature) : List (Option Text × Block) :=
  feature.blocks.map (none, ·) ++
    feature.rules.flatMap fun rule => rule.blocks.map (some rule.name, ·)

/-- Every block of a feature stands in the lines that it was read from, below its rule. -/
theorem standsIn_of_read {line : Line} {rest : List Line} {feature : Feature}
    (isFeature : line.keyword? = some .feature) (featureRead : read line rest = .ok (feature, [])) :
    ∀ entry ∈ feature.scopedBlocks, entry.2.StandsIn entry.1 (Line.outside none (line :: rest)) := by
  rw [Line.outside_of_not_fence rest (by simp [isFeature])]
  unfold read at featureRead
  split at featureRead
  · contradiction
  · next blocks after blocksRead =>
      split at featureRead
      · contradiction
      · next rules last rulesRead =>
          cases featureRead
          obtain ⟨stand, left⟩ := Block.standsIn_of_readAll blocksRead
          intro entry member
          rcases List.mem_append.1 member with inBlocks | inRules
          · obtain ⟨block, inside, rfl⟩ := List.mem_map.1 inBlocks
            exact (stand block inside).cons (by simp [isFeature])
          · obtain ⟨rule, isRule, inRule⟩ := List.mem_flatMap.1 inRules
            obtain ⟨block, inside, rfl⟩ := List.mem_map.1 inRule
            have stands := Rule.standsIn_of_readAll rulesRead rule isRule block inside
            rw [← left] at stands
            refine (stands.of_dropWhile fun later other isRule => ?_).cons (by simp [isFeature])
            simp [Line.endsBlocks, isRule] at other

/-- Lines before the feature are outside of all doc strings and name no rule. -/
theorem keyword?_ne_of_isPreamble {line : Line}
    (blankLine : line.isBlank = true → line.keyword? = none) (preamble : isPreamble line = true) :
    line.keyword? ≠ some .fence ∧ line.keyword? ≠ some .rule := by
  simp only [isPreamble, Bool.or_eq_true, decide_eq_true_eq] at preamble
  rcases preamble with (blank | found) | found
  · simp [blankLine blank]
  · simp [found]
  · simp [found]

/-- What may stand before the feature does not change where a block stands. -/
theorem standsIn_of_dropWhile_isPreamble {block : Block} {rule? : Option Text} {lines : List Line}
    (blankLines : ∀ line ∈ lines, line.isBlank = true → line.keyword? = none)
    (stands : block.StandsIn rule? (Line.outside none (lines.dropWhile isPreamble))) :
    block.StandsIn rule? (Line.outside none lines) := by
  induction lines with
  | nil => exact stands
  | cons line rest inductionHypothesis =>
      obtain ⟨blankLine, laterBlankLines⟩ := List.forall_mem_cons.1 blankLines
      cases preamble : isPreamble line with
      | false => rwa [List.dropWhile_cons_of_neg (by simp [preamble])] at stands
      | true =>
          obtain ⟨notFence, notRule⟩ := keyword?_ne_of_isPreamble blankLine preamble
          rw [List.dropWhile_cons_of_pos preamble] at stands
          rw [Line.outside_of_not_fence rest notFence]
          exact (inductionHypothesis laterBlankLines stands).cons notRule

/-- The blocks of a file stand among its lines outside doc strings. -/
theorem standsIn_of_ofLines {lines : List Line} {feature : Feature}
    (read : ofLines lines = .ok (some feature))
    (blankLines : ∀ line ∈ lines, line.isBlank = true → line.keyword? = none) :
    ∀ entry ∈ feature.scopedBlocks, entry.2.StandsIn entry.1 (Line.outside none lines) := by
  intro entry member
  apply standsIn_of_dropWhile_isPreamble blankLines
  unfold ofLines at read
  split at read
  · cases read
  · next line rest left =>
      rw [left]
      split at read
      · next isFeature =>
          split at read
          · contradiction
          · next featureRead =>
              cases read
              exact standsIn_of_read isFeature featureRead entry member
          · contradiction
      · contradiction

end Feature

end FeatureLint
