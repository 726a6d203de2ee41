import FeatureLint.Proofs.Layout
import FeatureLint.Proofs.Remainder

/-!
This file grows the branches of a document from the lines outside its doc strings, one line after the
other. Each line hangs from the last node that may hold it, and nothing is remembered but these nodes.
Main statement: the branches of every document that was parsed are grown from its lines.
-/

namespace FeatureLint

namespace Line

/-- These are the lines outside doc strings. A fence opens a doc string, and the next line that
starts with the same three characters closes it. -/
def outside : (open? : Option Text) → List Line → List Line
  | _, [] => []
  | some fence, line :: rest =>
      outside (if Text.startsWith line.content fence then none else some fence) rest
  | none, line :: rest =>
      if line.keyword? = some .fence then outside (some (line.content.take 3)) rest
      else line :: outside none rest

/-- A heading opens a section or is the first line of examples. -/
def isHeading (line : Line) : Bool :=
  line.opensSection || line.keyword? = some .examples

/-- This test asks whether the next heading is one of examples. -/
def meetExamples (lines : List Line) : Bool :=
  (lines.find? isHeading).any fun line => line.keyword? = some .examples

theorem outside_of_not_fence {line : Line} (rest : List Line)
    (notFence : line.keyword? ≠ some .fence) :
    outside none (line :: rest) = line :: outside none rest := by
  rw [outside, if_neg notFence]

theorem outside_of_skipDocString? {fence : Text} {lines after : List Line}
    (skipped : Block.skipDocString? fence lines = some after) :
    outside (some fence) lines = outside none after := by
  fun_induction Block.skipDocString? fence lines with
  | case1 => cases skipped
  | case2 line rest closes =>
      cases skipped
      rw [outside, if_pos closes]
  | case3 line rest continues inductionHypothesis =>
      rw [outside, if_neg continues]
      exact inductionHypothesis skipped

theorem keyword?_ne_of_isHeading {line : Line} (heading : line.isHeading = true) :
    line.keyword? ≠ some .fence ∧ line.keyword? ≠ some .row := by
  constructor
  all_goals
    intro found
    simp [isHeading, opensSection, found, Keyword.opensSection, Keyword.opensBlock] at heading

theorem isHeading_of_opensSection {line : Line} (opens : line.opensSection = true) :
    line.isHeading = true := by
  rw [isHeading, opens, Bool.true_or]

theorem isHeading_eq_false {line : Line} (opensNothing : ¬ line.opensSection = true)
    (notExamples : line.keyword? ≠ some .examples) : line.isHeading = false := by
  simp [isHeading, opensNothing, notExamples]

theorem opensSection_cases {line : Line} (opens : line.opensSection = true) :
    line.keyword? = some .rule ∨ line.keyword? = some .feature ∨ line.opensBlock = true := by
  obtain ⟨keyword, found, opensToo⟩ := exists_keyword_of_opensSection opens
  rw [opensBlock, found]
  cases keyword <;> first | contradiction | simp [Keyword.opensBlock]

theorem meetExamples_cons {line : Line} {keyword : Keyword} (found : line.keyword? = some keyword)
    (lines : List Line) :
    meetExamples (line :: lines) =
      if keyword.opensSection then false
      else if keyword = .examples then true
      else meetExamples lines := by
  rw [meetExamples, List.find?_cons]
  cases keyword <;> simp [isHeading, opensSection, found, Keyword.opensSection, Keyword.opensBlock,
    meetExamples]

/-- The parser looks ahead for what the lines outside doc strings meet. -/
theorem hasExamples_eq_meetExamples (open? : Option Text) (lines : List Line) :
    Block.hasExamples open? lines = meetExamples (outside open? lines) := by
  induction lines generalizing open? with
  | nil => cases open? <;> rfl
  | cons line rest inductionHypothesis =>
      cases open? with
      | some fence =>
          rw [outside, ← inductionHypothesis]
          cases line.keyword? <;> rfl
      | none =>
          by_cases isFence : line.keyword? = some .fence
          · rw [outside, if_pos isFence, ← inductionHypothesis]
            simp [Block.hasExamples, isFence, Block.fenceOf]
          · rw [outside_of_not_fence rest isFence]
            cases found : line.keyword? with
            | none =>
                rw [meetExamples, List.find?_cons_of_neg (by simp [isHeading, opensSection, found]),
                  ← meetExamples, ← inductionHypothesis]
                simp [Block.hasExamples, found, opensSection]
            | some keyword =>
                rw [meetExamples_cons found, ← inductionHypothesis]
                cases keyword <;> first | contradiction | simp [Block.hasExamples, found, opensSection,
                  Keyword.opensSection, Keyword.opensBlock]

end Line

/-- These are the nodes that later lines can hang from: the last feature, the last feature or rule,
the last block, and the examples whose table is still open. -/
structure Above where
  feature : Nat
  holder : Nat
  block : Nat
  table? : Option Nat
deriving DecidableEq, Repr

namespace Above

/-- Nothing stands above the first line but the root. -/
def root : Above :=
  ⟨0, 0, 0, none⟩

/-- These are the branches that one line adds when the next node gets the number `next`. -/
def branches (above : Above) (next : Nat) (line : Line) (after : List Line) : List Branch :=
  match line.keyword? with
  | some .feature => [⟨0, .feature line.text, line.number⟩]
  | some .rule => [⟨above.feature, .rule line.text, line.number⟩]
  | some .background => [⟨above.holder, .background line.text, line.number⟩]
  | some .scenario =>
      [⟨above.holder, if Line.meetExamples after then .outline line.text else .scenario line.text,
        line.number⟩]
  | some .outline => [⟨above.holder, .outline line.text, line.number⟩]
  | some .examples => [⟨above.block, .examples line.text, line.number⟩]
  | some .row =>
      match above.table? with
      | none => []
      | some table => Row.layout table next ⟨line.number, Row.cellsOf line.content⟩
  | _ => []

/-- Each heading closes the table before it. -/
def enter (above : Above) (next : Nat) (line : Line) : Above :=
  match line.keyword? with
  | some .feature => ⟨next, next, above.block, none⟩
  | some .rule => ⟨above.feature, next, above.block, none⟩
  | some .background | some .scenario | some .outline => ⟨above.feature, above.holder, next, none⟩
  | some .examples => ⟨above.feature, above.holder, above.block, some next⟩
  | _ => above

/-- This function grows the branches of all lines. -/
def growth (above : Above) (next : Nat) : List Line → List Branch
  | [] => []
  | line :: rest =>
      above.branches next line rest ++
        growth (above.enter next line) (next + (above.branches next line rest).length) rest

/-- The layout of several items is that of the first one and then that of the others, and what is
grown after it is grown after both. -/
theorem layoutAll_cons_append {Item : Type} (layout : Nat → Item → List Branch) (next : Nat)
    (item : Item) (rest : List Item) (later : Nat → List Branch) :
    layoutAll layout next (item :: rest) ++
        later (next + (layoutAll layout next (item :: rest)).length) =
      layout next item ++
        (layoutAll layout (next + (layout next item).length) rest ++
          later (next + (layout next item).length +
            (layoutAll layout (next + (layout next item).length) rest).length)) := by
  rw [layoutAll, List.append_assoc, List.length_append, Nat.add_assoc]

/-- What is grown after a node and the branches below it is grown after the branches. -/
theorem cons_append_later (branch : Branch) (below : List Branch) (next : Nat)
    (later : Nat → List Branch) :
    branch :: below ++ later (next + (branch :: below).length) =
      branch :: (below ++ later (next + 1 + below.length)) := by
  rw [List.length_cons, Nat.add_comm below.length, Nat.add_assoc]
  rfl

/-- A line that is no heading and no row of an open table adds nothing. -/
theorem growth_of_other {above : Above} {line : Line} (next : Nat) (rest : List Line)
    (other : line.isHeading = false)
    (outsideTable : line.keyword? ≠ some .row ∨ above.table? = none) :
    above.growth next (line :: rest) = above.growth next rest := by
  have nothing : above.branches next line rest = [] ∧ above.enter next line = above := by
    unfold branches enter
    cases found : line.keyword? with
    | none => exact ⟨rfl, rfl⟩
    | some keyword =>
        cases keyword
        case row => simp_all
        all_goals first | exact ⟨rfl, rfl⟩ | simp [Line.isHeading, Line.opensSection, found,
          Keyword.opensSection, Keyword.opensBlock] at other
  rw [growth, nothing.1, nothing.2]
  rfl

/-- A heading does not ask whether a table was open before it. -/
theorem growth_of_isHeading {line : Line} (above : Above) (next : Nat) (rest : List Line)
    (heading : line.isHeading = true) :
    above.growth next (line :: rest) = { above with table? := none }.growth next (line :: rest) := by
  have same : above.branches next line rest = { above with table? := none }.branches next line rest ∧
      above.enter next line = { above with table? := none }.enter next line := by
    unfold branches enter
    cases found : line.keyword? with
    | none => simp [Line.isHeading, Line.opensSection, found] at heading
    | some keyword =>
        cases keyword <;> first | exact ⟨rfl, rfl⟩ | simp [Line.isHeading, Line.opensSection, found,
          Keyword.opensSection, Keyword.opensBlock] at heading
  rw [growth, growth, same.1, same.2]

theorem growth_of_branches {line : Line} {above : Above} {next : Nat} {rest : List Line}
    {branch : Branch} (grown : above.branches next line rest = [branch]) :
    above.growth next (line :: rest) = branch :: (above.enter next line).growth (next + 1) rest := by
  rw [growth, grown]
  rfl

/-- The lines left by the reader of a table are over or start with a heading. -/
theorem growth_after_readRows {width? : Option Nat} {lines after : List Line} {rows : List Row}
    (read : Examples.readRows width? lines = .ok (rows, after)) (above : Above) (next : Nat) :
    above.growth next (Line.outside none after) =
      { above with table? := none }.growth next (Line.outside none after) := by
  fun_induction Examples.readRows width? lines generalizing rows with
  | case1 =>
      cases read
      rfl
  | case3 width? line rest isRow row width fits others last rowsRead =>
      rename_i inductionHypothesis
      cases read
      exact inductionHypothesis rowsRead
  | case7 width? line rest isExamples =>
      cases read
      rw [Line.outside_of_not_fence rest (by simp [isExamples])]
      exact growth_of_isHeading above next _ (by simp [Line.isHeading, isExamples])
  | case8 width? line rest opens =>
      cases read
      have heading := Line.isHeading_of_opensSection opens
      rw [Line.outside_of_not_fence rest (Line.keyword?_ne_of_isHeading heading).1]
      exact growth_of_isHeading above next _ heading
  | case9 width? line rest _ _ _ _ _ inductionHypothesis => exact inductionHypothesis read
  | _ => cases read

/-- The lines of a table grow into its rows. -/
theorem growth_readRows {width? : Option Nat} {lines after : List Line} {rows : List Row}
    (read : Examples.readRows width? lines = .ok (rows, after)) {above : Above} {table : Nat}
    (isOpen : above.table? = some table) (next : Nat) :
    above.growth next (Line.outside none lines) =
      layoutAll (Row.layout table) next rows ++
        above.growth (next + (layoutAll (Row.layout table) next rows).length)
          (Line.outside none after) := by
  fun_induction Examples.readRows width? lines generalizing rows next with
  | case1 =>
      cases read
      rfl
  | case3 width? line rest isRow row width fits others last rowsRead =>
      rename_i inductionHypothesis
      cases read
      have grown : above.branches next line (Line.outside none rest) = row.layout table next := by
        simp [branches, isRow, isOpen, row]
      have stays : above.enter next line = above := by simp [enter, isRow]
      rw [Line.outside_of_not_fence rest (by simp [isRow]), growth, grown, stays,
        inductionHypothesis rowsRead, layoutAll_cons_append _ _ _ _ (above.growth · _)]
  | case7 width? line rest isExamples =>
      cases read
      rfl
  | case8 width? line rest opens =>
      cases read
      rfl
  | case9 width? line rest opensNothing notRow notStep notFence notExamples inductionHypothesis =>
      have other := Line.isHeading_eq_false opensNothing notExamples
      rw [Line.outside_of_not_fence rest notFence, growth_of_other next _ other (Or.inl notRow)]
      exact inductionHypothesis read next
  | _ => cases read

/-- The first line of examples grows with its table into the examples. -/
theorem growth_examples {line : Line} {rest after : List Line} {rows : List Row}
    (isExamples : line.keyword? = some .examples)
    (read : Examples.readRows none rest = .ok (rows, after)) {above : Above}
    (closed : above.table? = none) (next : Nat) :
    above.growth next (Line.outside none (line :: rest)) =
      Examples.layout above.block next ⟨line.number, line.text, rows⟩ ++
        above.growth (next + (Examples.layout above.block next ⟨line.number, line.text, rows⟩).length)
          (Line.outside none after) := by
  have grown : above.branches next line (Line.outside none rest) =
      [⟨above.block, .examples line.text, line.number⟩] := by
    simp [branches, isExamples]
  have entered : above.enter next line = { above with table? := some next } := by
    simp [enter, isExamples]
  have same : { above with table? := none } = above := by simp [← closed]
  rw [Line.outside_of_not_fence rest (by simp [isExamples]), growth_of_branches grown, entered,
    growth_readRows read rfl, growth_after_readRows read, same]
  exact (cons_append_later _ _ next (above.growth · (Line.outside none after))).symm

/-- The lines of a body grow into its examples. -/
theorem growth_readBody {isOutline : Bool} {lines after : List Line} {tables : List Examples}
    (read : Block.readBody isOutline lines = .ok (tables, after)) {above : Above}
    (closed : above.table? = none) (next : Nat) :
    above.growth next (Line.outside none lines) =
      layoutAll (Examples.layout above.block) next tables ++
        above.growth (next + (layoutAll (Examples.layout above.block) next tables).length)
          (Line.outside none after) := by
  fun_induction Block.readBody isOutline lines generalizing tables next with
  | case1 =>
      cases read
      rfl
  | case3 line rest isFence afterDoc skipped inductionHypothesis =>
      rw [Line.outside, if_pos isFence, ← Block.fenceOf, Line.outside_of_skipDocString? skipped]
      exact inductionHypothesis read next
  | case6 line rest isExamples outline rows afterRows rowsRead others last bodyRead
      inductionHypothesis =>
      cases read
      rw [growth_examples isExamples rowsRead closed, inductionHypothesis bodyRead,
        layoutAll_cons_append _ _ _ _ (above.growth · _)]
  | case8 line rest opens notFence notExamples =>
      cases read
      rfl
  | case9 line rest opensNothing notFence notExamples inductionHypothesis =>
      have other := Line.isHeading_eq_false opensNothing notExamples
      rw [Line.outside_of_not_fence rest notFence, growth_of_other next _ other (Or.inr closed)]
      exact inductionHypothesis read next
  | _ => cases read

/-- Only an outline has examples. -/
theorem tables_eq_nil_of_readBody {isOutline : Bool} {lines after : List Line}
    {tables : List Examples} (read : Block.readBody isOutline lines = .ok (tables, after))
    (plain : isOutline = false) : tables = [] := by
  fun_induction Block.readBody isOutline lines with
  | case1 =>
      cases read
      rfl
  | case3 line rest isFence afterDoc skipped inductionHypothesis => exact inductionHypothesis read
  | case6 line rest isExamples outline => simp [plain] at outline
  | case8 line rest opens notFence notExamples =>
      cases read
      rfl
  | case9 line rest opensNothing notFence notExamples inductionHypothesis =>
      exact inductionHypothesis read
  | _ => cases read

/-- The form of a block keeps the examples that were read. -/
theorem tables_formOf {line : Line} {rest after : List Line} {tables : List Examples}
    (read : Block.readBody (Block.isOutline line rest) rest = .ok (tables, after)) :
    (Block.formOf line (Block.isOutline line rest) tables).tables = tables := by
  cases outline : Block.isOutline line rest with
  | false =>
      have none := tables_eq_nil_of_readBody read outline
      unfold Block.formOf
      split <;> simp [Block.Form.tables, none]
  | true =>
      have notBackground : line.keyword? ≠ some .background := by
        intro found
        simp [Block.isOutline, found] at outline
      simp [Block.formOf, notBackground, Block.Form.tables]

/-- The line of a block grows into a node of its form. -/
theorem branches_of_opensBlock {line : Line} (opens : line.opensBlock = true) (rest : List Line)
    (tables : List Examples) (above : Above) (next : Nat) :
    above.branches next line (Line.outside none rest) =
        [⟨above.holder, (Block.formOf line (Block.isOutline line rest) tables).kind line.text,
          line.number⟩] ∧
      above.enter next line = { above with block := next, table? := none } := by
  obtain ⟨keyword, found, isBlock⟩ := Line.exists_keyword_of_opensBlock opens
  cases keyword
  case background => simp [branches, enter, found, Block.formOf, Block.Form.kind]
  case scenario =>
    simp only [branches, enter, found, Block.formOf, Block.isOutline,
      Line.hasExamples_eq_meetExamples]
    cases Line.meetExamples (Line.outside none rest) <;> simp [Block.Form.kind]
  case outline => simp [branches, enter, found, Block.formOf, Block.isOutline, Block.Form.kind]
  all_goals contradiction

/-- The lines of a block grow into the block. -/
theorem growth_read {line : Line} {rest after : List Line} {block : Block}
    (opens : line.opensBlock = true) (read : Block.read line rest = .ok (block, after))
    (above : Above) (next : Nat) :
    above.growth next (Line.outside none (line :: rest)) =
      block.layout above.holder next ++
        { above with block := next, table? := none }.growth
          (next + (block.layout above.holder next).length) (Line.outside none after) := by
  have heading := Line.isHeading_of_opensSection (Line.opensSection_of_opensBlock opens)
  unfold Block.read at read
  split at read
  · contradiction
  · next tables last bodyRead =>
      cases read
      have first := branches_of_opensBlock opens rest tables above next
      have body := growth_readBody bodyRead
        (show ({ above with block := next, table? := none } : Above).table? = none from rfl) (next + 1)
      rw [Line.outside_of_not_fence rest (Line.keyword?_ne_of_isHeading heading).1,
        growth_of_branches first.1, first.2, body, Block.layout, tables_formOf bodyRead]
      exact (cons_append_later _ _ next
        ({ above with block := next, table? := none }.growth · (Line.outside none after))).symm

/-- The lines of several blocks grow into these blocks. Which block was the last one does not matter
to what follows. -/
theorem growth_readAll {expected : Text} {lines after : List Line} {blocks : List Block}
    (read : Block.readAll expected lines = .ok (blocks, after)) (above : Above)
    (closed : above.table? = none) (next : Nat) :
    ∃ block, above.growth next (Line.outside none lines) =
      layoutAll (Block.layout above.holder) next blocks ++
        { above with block := block }.growth
          (next + (layoutAll (Block.layout above.holder) next blocks).length)
          (Line.outside none after) := by
  fun_induction Block.readAll expected lines generalizing blocks above next with
  | case1 =>
      cases read
      exact ⟨above.block, rfl⟩
  | case2 line rest isRule =>
      cases read
      exact ⟨above.block, rfl⟩
  | case3 line rest isFeature =>
      cases read
      exact ⟨above.block, rfl⟩
  | case10 line rest opens first afterFirst firstRead others last othersRead _ _ _ _ _ _
      inductionHypothesis =>
      cases read
      obtain ⟨block, grown⟩ := inductionHypothesis othersRead
        { above with block := next, table? := none } rfl
        (next + (first.layout above.holder next).length)
      refine ⟨block, ?_⟩
      rw [growth_read opens firstRead, grown, ← closed]
      exact (layoutAll_cons_append _ _ _ _
        ({ above with block := block }.growth · (Line.outside none after))).symm
  | case11 line rest opensNoBlock notRule notFeature notExamples notStep notRow notFence
      inductionHypothesis =>
      have opensNothing : ¬ line.opensSection = true := by
        intro opens
        rcases Line.opensSection_cases opens with found | found | found
        all_goals contradiction
      have other := Line.isHeading_eq_false opensNothing notExamples
      rw [Line.outside_of_not_fence rest notFence, growth_of_other next _ other (Or.inl notRow)]
      exact inductionHypothesis read above closed next
  | _ => cases read

/-- The lines of all rules grow into the rules. -/
theorem growth_readRules {lines : List Line} {rules : List Rule}
    (read : Rule.readAll lines = .ok (rules, [])) (above : Above) (next : Nat) :
    above.growth next (Line.outside none lines) =
      layoutAll (Rule.layout above.feature) next rules := by
  fun_induction Rule.readAll lines generalizing rules above next with
  | case1 =>
      cases read
      rfl
  | case4 line rest isRule blocks after blocksRead others last othersRead inductionHypothesis =>
      cases read
      have grown : above.branches next line (Line.outside none rest) =
          [⟨above.feature, .rule line.text, line.number⟩] := by
        simp [branches, isRule]
      have entered : above.enter next line = ⟨above.feature, next, above.block, none⟩ := by
        simp [enter, isRule]
      obtain ⟨block, body⟩ := growth_readAll blocksRead ⟨above.feature, next, above.block, none⟩ rfl
        (next + 1)
      rw [Line.outside_of_not_fence rest (by simp [isRule]), growth_of_branches grown, entered, body,
        inductionHypothesis othersRead, ← cons_append_later _ _ next
          (layoutAll (Rule.layout above.feature) · others)]
      rfl
  | _ => cases read

/-- The lines of a feature grow into the feature. -/
theorem growth_readFeature {line : Line} {rest : List Line} {feature : Feature}
    (isFeature : line.keyword? = some .feature) (read : Feature.read line rest = .ok (feature, []))
    (next : Nat) :
    root.growth next (Line.outside none (line :: rest)) = feature.layout 0 next := by
  have grown : root.branches next line (Line.outside none rest) =
      [⟨0, .feature line.text, line.number⟩] := by
    simp [branches, isFeature]
  have entered : root.enter next line = ⟨next, next, 0, none⟩ := by simp [enter, isFeature, root]
  unfold Feature.read at read
  split at read
  · contradiction
  · next blocks after blocksRead =>
      split at read
      · contradiction
      · next rules last rulesRead =>
          cases read
          obtain ⟨block, body⟩ := growth_readAll blocksRead ⟨next, next, 0, none⟩ rfl (next + 1)
          rw [Line.outside_of_not_fence rest (by simp [isFeature]), growth_of_branches grown, entered,
            body, growth_readRules rulesRead]
          rfl

/-- Lines before the feature grow into nothing. -/
theorem growth_dropWhile_isPreamble {lines : List Line}
    (blankLines : ∀ line ∈ lines, line.isBlank = true → line.keyword? = none) (next : Nat) :
    root.growth next (Line.outside none lines) =
      root.growth next (Line.outside none (lines.dropWhile Feature.isPreamble)) := by
  induction lines with
  | nil => rfl
  | cons line rest inductionHypothesis =>
      cases preamble : Feature.isPreamble line with
      | false => rw [List.dropWhile_cons_of_neg (by simp [preamble])]
      | true =>
          have plain : line.keyword? = none ∨ line.keyword? = some .comment ∨
              line.keyword? = some .tag := by
            simp only [Feature.isPreamble, Bool.or_eq_true, decide_eq_true_eq] at preamble
            rcases preamble with (blank | found) | found
            · exact Or.inl (blankLines line List.mem_cons_self blank)
            · exact Or.inr (Or.inl found)
            · exact Or.inr (Or.inr found)
          have notFence : line.keyword? ≠ some .fence := by
            rcases plain with found | found | found <;> simp [found]
          have other : line.isHeading = false := by
            rcases plain with found | found | found <;> simp [Line.isHeading, Line.opensSection, found,
              Keyword.opensSection, Keyword.opensBlock]
          rw [List.dropWhile_cons_of_pos preamble, Line.outside_of_not_fence rest notFence,
            growth_of_other next _ other (Or.inr rfl)]
          exact inductionHypothesis fun later member => blankLines later (List.mem_cons_of_mem _ member)

/-- The lines of a file grow into its feature. -/
theorem growth_ofLines {lines : List Line} {feature? : Option Feature}
    (read : Feature.ofLines lines = .ok feature?)
    (blankLines : ∀ line ∈ lines, line.isBlank = true → line.keyword? = none) :
    root.growth 1 (Line.outside none lines) = layoutAll (Feature.layout 0) 1 feature?.toList := by
  rw [growth_dropWhile_isPreamble blankLines]
  unfold Feature.ofLines at read
  split at read
  · next nothing =>
      cases read
      rw [nothing]
      rfl
  · next line rest left =>
      split at read
      · next isFeature =>
          split at read
          · contradiction
          · next feature featureRead =>
              cases read
              rw [left, growth_readFeature isFeature featureRead]
              exact (List.append_nil _).symm
          · contradiction
      · contradiction

end Above

/-- Each line of a source was classified by its content. -/
theorem LineReader.exists_read_of_mem_lines (reader : LineReader) {line : Line}
    (member : line ∈ reader.lines) : ∃ number offset raw, line = Line.read number offset raw := by
  fun_induction LineReader.lines reader with
  | case1 => cases member
  | case2 reader first after read inductionHypothesis =>
      rcases List.mem_cons.1 member with rfl | later
      · unfold next? at read
        split at read
        · contradiction
        · cases read
          exact ⟨_, _, _, rfl⟩
      · exact inductionHypothesis later

theorem Line.keyword?_of_isBlank {source : Text} {line : Line} (member : line ∈ ofSource source)
    (blank : line.isBlank = true) : line.keyword? = none := by
  obtain ⟨number, offset, raw, rfl⟩ := LineReader.exists_read_of_mem_lines _ member
  have kept : (read number offset raw).content = Text.trim raw := by
    unfold read
    dsimp only
    split <;> rfl
  have empty : Text.trim raw = [] := by
    rw [isBlank, kept] at blank
    exact List.isEmpty_iff.1 blank
  have nothing : Keyword.read? [] = none := by decide
  simp [read, empty, nothing]

/-- The branches of a document that was parsed are grown from the lines outside its doc strings. -/
theorem Document.branches_of_parse {path : Path} {source : Text} {document : Document}
    (parsed : parse path source = .ok document) :
    document.branches = Above.root.growth 1 (Line.outside none (Line.ofSource source)) := by
  obtain ⟨feature?, read, rfl⟩ := exists_ofFeature_of_parse parsed
  exact (Above.growth_ofLines read fun _ => Line.keyword?_of_isBlank).symm

end FeatureLint
