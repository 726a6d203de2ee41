import FeatureLint.Proofs.Printing
import FeatureLint.Proofs.Shape

/-!
This file reads a feature off a well-shaped document. In such a document the nodes below each node are
numbered without a gap, so every node with all that is below it is the layout of one part of a feature.
Main statement: a well-shaped document is the document of a proper feature, and the entries of the
document are those of the feature.
-/

namespace FeatureLint

namespace Document

/-- This is the branch of a node. Only the root has none. -/
def branch? (document : Document) : Nat → Option Branch
  | 0 => none
  | number + 1 => document.branches[number]?

variable {document : Document}

/-- A branch has the node of its number. -/
theorem node?_of_branch? {number : Nat} {branch : Branch}
    (here : document.branch? number = some branch) : document.node? number = some branch.node := by
  cases number with
  | zero => cases here
  | succ index => exact Option.map_eq_some_iff.2 ⟨branch, here, rfl⟩

theorem parent?_of_branch? {number : Nat} {branch : Branch}
    (here : document.branch? number = some branch) :
    document.parent? number = some branch.parent := by
  cases number with
  | zero => cases here
  | succ index => exact Option.map_eq_some_iff.2 ⟨branch, here, rfl⟩

/-- Every child has a branch that hangs from its parent. -/
theorem exists_branch?_of_mem_children {number child : Nat}
    (member : child ∈ document.children number) :
    ∃ node, document.branch? child = some ⟨number, node⟩ := by
  have found := (mem_children_iff document number child).1 member
  cases child with
  | zero => cases found
  | succ index =>
      obtain ⟨branch, here, rfl⟩ := Option.map_eq_some_iff.1 found
      exact ⟨branch.node, here⟩

/-- A child with a tag has a branch with a node of this tag. -/
theorem exists_branch?_of_is {number child : Nat} {tag : Tag}
    (member : child ∈ document.children number) (isTag : document.is child tag = true) :
    ∃ node, document.branch? child = some ⟨number, node⟩ ∧ node.kind.tag = tag := by
  obtain ⟨node, here⟩ := exists_branch?_of_mem_children member
  refine ⟨node, here, ?_⟩
  simpa [is, kind?, node?_of_branch? here] using isTag

/-- The pre-order of a node is one piece of the pre-order of its parent. -/
theorem preorder_infix_of_parent? {number parent : Nat}
    (found : document.parent? number = some parent) :
    document.preorder number <:+: document.preorder parent := by
  obtain ⟨before, after, split⟩ :=
    List.append_of_mem ((mem_children_iff document parent number).2 found)
  rw [preorder_eq document parent]
  refine ⟨parent :: before.flatMap document.preorder, after.flatMap document.preorder, ?_⟩
  simp [split]

/-- The pre-order of every node is one piece of the walk. -/
theorem preorder_infix_root {number : Nat} (known : number < document.size) :
    document.preorder number <:+: document.preorder 0 := by
  induction number using Nat.strongRecOn with
  | ind number inductionHypothesis =>
      by_cases isRoot : number = 0
      · exact isRoot ▸ List.infix_refl _
      · obtain ⟨parent, found⟩ := parent?_of_lt isRoot known
        have smaller := lt_of_parent? found
        exact (preorder_infix_of_parent? found).trans
          (inductionHypothesis parent smaller (Nat.lt_trans smaller known))

/-- The nodes below a node are numbered from the next number on, without a gap. -/
theorem exists_flatMap_preorder_children (ordered : document.walk = List.range document.size)
    {number : Nat} (known : number < document.size) :
    ∃ count, (document.children number).flatMap document.preorder =
      List.range' (number + 1) count := by
  obtain ⟨before, after, whole⟩ := document.preorder_infix_root known
  rw [← walk_eq_preorder, ordered, List.range_eq_range'] at whole
  obtain ⟨_, _, front, -⟩ := List.range'_eq_append_iff.1 whole.symm
  obtain ⟨_, _, -, own⟩ := List.range'_eq_append_iff.1 front.symm
  rw [preorder_eq] at own
  exact ⟨_, (List.range'_eq_cons_iff.1 own.symm).2.2⟩

/-- The numbers spell branches and entries when they are numbers of these branches and those of them
that come from lines have these entries. -/
structure Spells (document : Document) (numbers : List Nat) (branches : List Branch)
    (entries : List (Nat × Text)) : Prop where
  branches : numbers.map document.branch? = branches.map some
  entries : (numbers.filter document.comesFromLine).filterMap document.written? = entries

namespace Spells

/-- There are as many numbers as branches. -/
theorem length_eq {numbers : List Nat} {branches : List Branch} {entries : List (Nat × Text)}
    (spells : document.Spells numbers branches entries) : numbers.length = branches.length := by
  have lengths := congrArg List.length spells.branches
  rwa [List.length_map, List.length_map] at lengths

/-- What two lists of numbers spell, their concatenation spells one after the other. -/
theorem append {first second : List Nat} {left right : List Branch}
    {leftEntries rightEntries : List (Nat × Text)} (early : document.Spells first left leftEntries)
    (late : document.Spells second right rightEntries) :
    document.Spells (first ++ second) (left ++ right) (leftEntries ++ rightEntries) :=
  ⟨by rw [List.map_append, List.map_append, early.branches, late.branches],
    by rw [List.filter_append, List.filterMap_append, early.entries, late.entries]⟩

/-- A node that comes from a line of its own has an entry. -/
theorem cons {number parent : Nat} {node : Node} {numbers : List Nat} {below : List Branch}
    {entries : List (Nat × Text)} (here : document.branch? number = some ⟨parent, node⟩)
    (other : node.kind.tag ≠ .cell) (spells : document.Spells numbers below entries) :
    document.Spells (number :: numbers) (⟨parent, node⟩ :: below)
      ((node.line, node.kind.write (document.cells number)) :: entries) := by
  have found := node?_of_branch? here
  have positive : number ≠ 0 := by
    rintro rfl
    cases here
  have fromLine : document.comesFromLine number = true := by
    simp [comesFromLine, positive, Document.is, kind?, found, other]
  have entry : document.written? number =
      some (node.line, node.kind.write (document.cells number)) := by
    rw [written?, found, Option.map_some]
  refine ⟨?_, ?_⟩
  · rw [List.map_cons, here, spells.branches, List.map_cons]
  · rw [List.filter_cons_of_pos fromLine, List.filterMap_cons_some entry, spells.entries]

/-- Nodes that spell items one after the other spell all items together. -/
theorem exists_items {Item : Type} {layout : Nat → Item → List Branch}
    {entries : Item → List (Nat × Text)} {Good : Item → Prop} {numbers : List Nat} {next count : Nat}
    (numbered : numbers.flatMap document.preorder = List.range' next count)
    (each : ∀ number ∈ numbers, ∃ item, Good item ∧
      document.Spells (document.preorder number) (layout number item) (entries item)) :
    ∃ items, items.length = numbers.length ∧ (∀ item ∈ items, Good item) ∧
      document.Spells (numbers.flatMap document.preorder) (layoutAll layout next items)
        (items.flatMap entries) := by
  -- The first node has the first number, so its item is laid out where the layout of all starts.
  induction numbers generalizing next count with
  | nil => exact ⟨[], rfl, List.forall_mem_nil _, rfl, rfl⟩
  | cons number rest inductionHypothesis =>
      obtain ⟨⟨item, good, spells⟩, others⟩ := List.forall_mem_cons.1 each
      rw [List.flatMap_cons] at numbered
      obtain ⟨length, _, own, later⟩ := List.range'_eq_append_iff.1 numbered.symm
      obtain ⟨items, lengths, goodItems, spellsRest⟩ := inductionHypothesis later others
      have start : next = number := by
        rw [preorder_eq] at own
        exact (List.range'_eq_cons_iff.1 own.symm).1
      subst start
      have same : length = (layout next item).length := by
        rw [← spells.length_eq, own, List.length_range']
      refine ⟨item :: items, by rw [List.length_cons, lengths, List.length_cons],
        List.forall_mem_cons.2 ⟨good, goodItems⟩, ?_⟩
      rw [List.flatMap_cons, layoutAll, List.flatMap_cons]
      rw [same, Nat.mul_one] at spellsRest
      exact spells.append spellsRest

end Spells

namespace WellShaped

variable {path : Path} {number parent line : Nat}

/-- Every branch is visited. -/
theorem mem_walk (branch : Branch) (here : document.branch? number = some branch) :
    number ∈ document.walk :=
  (document.mem_walk_iff number).2 (lt_size_of_parent? (parent?_of_branch? here))

/-- In a well-shaped document every node carries what belongs below it. -/
theorem carries_of_branch? (shaped : document.WellShaped path) {branch : Branch}
    (here : document.branch? number = some branch) :
    document.Carries number branch.node.kind.tag :=
  shaped.carries number (mem_walk branch here) _ (by rw [kind?, node?_of_branch? here]; rfl)

/-- In a well-shaped document every name of a node is one. -/
theorem name_of_branch? (shaped : document.WellShaped path) {branch : Branch}
    (here : document.branch? number = some branch) {name : Text}
    (named : branch.node.kind.name? = some name) : Text.IsName name :=
  shaped.names number (mem_walk branch here) name
    (by rw [name?, kind?, node?_of_branch? here]; exact named)

/-- The nodes below a node spell the items below it when each child spells an item. -/
theorem exists_items (shaped : document.WellShaped path) {branch : Branch}
    (here : document.branch? number = some branch) {Item : Type}
    {layout : Nat → Item → List Branch} {entries : Item → List (Nat × Text)} {Good : Item → Prop}
    (each : ∀ child ∈ document.children number, ∃ item, Good item ∧
      document.Spells (document.preorder child) (layout child item) (entries item)) :
    ∃ items, (∀ item ∈ items, Good item) ∧
      document.Spells ((document.children number).flatMap document.preorder)
        (layoutAll layout (number + 1) items) (items.flatMap entries) := by
  obtain ⟨count, numbered⟩ := exists_flatMap_preorder_children shaped.walk
    (lt_size_of_parent? (parent?_of_branch? here))
  obtain ⟨items, -, found⟩ := Spells.exists_items numbered each
  exact ⟨items, found⟩

/-- The cells of a row stand on its line. -/
theorem exists_cell (shaped : document.WellShaped path)
    (here : document.branch? number = some ⟨parent, .row, line⟩) {child : Nat}
    (member : child ∈ document.children number) :
    ∃ value, document.branch? child = some ⟨number, .cell value, line⟩ ∧
      Text.trim value = value := by
  have isCell : document.is child .cell = true := shaped.carries_of_branch? here child member
  obtain ⟨⟨kind, other⟩, found, same⟩ := exists_branch?_of_is member isCell
  cases kind <;> cases same
  case cell value =>
    have sameLine := shaped.cellLines child (mem_walk _ found) isCell number
      (parent?_of_branch? found)
    rw [line?, line?, node?_of_branch? here, node?_of_branch? found] at sameLine
    cases sameLine
    refine ⟨value, found, shaped.values child (mem_walk _ found) value ?_⟩
    rw [kind?, node?_of_branch? found]
    rfl

/-- A row of a well-shaped document is the layout of a proper row. -/
theorem exists_row (shaped : document.WellShaped path)
    (here : document.branch? number = some ⟨parent, .row, line⟩) :
    ∃ row : Row, (row.Proper ∧ row.cells = document.cells number) ∧
      document.Spells (document.preorder number) (row.layout parent number) [row.entry] := by
  have cells : document.cells number = (document.children number).filterMap fun child =>
      (document.kind? child).bind Kind.value? := by
    rw [Document.cells, childrenWith, List.filter_eq_self.2 (shaped.carries_of_branch? here)]
  have found {child : Nat} {value : Text}
      (cell : document.branch? child = some ⟨number, .cell value, line⟩) :
      (document.kind? child).bind Kind.value? = some value := by
    rw [kind?, node?_of_branch? cell]
    rfl
  have alone : ∀ child ∈ document.children number, document.preorder child = [child] := by
    intro child member
    obtain ⟨value, cell, -⟩ := shaped.exists_cell here member
    have leaf : document.children child = [] := shaped.carries_of_branch? cell
    rw [preorder_eq, leaf, List.flatMap_nil]
  have proper : ∀ value ∈ document.cells number, Text.trim value = value := by
    intro value member
    rw [cells, List.mem_filterMap] at member
    obtain ⟨child, inside, same⟩ := member
    obtain ⟨other, cell, trimmed⟩ := shaped.exists_cell here inside
    cases (found cell).symm.trans same
    exact trimmed
  refine ⟨⟨line, document.cells number⟩, ⟨proper, rfl⟩, ?_⟩
  rw [preorder_eq, List.flatMap_congr alone, List.flatMap_singleton']
  refine Spells.cons here (by simp [Kind.tag]) ⟨?_, ?_⟩
  · rw [Row.layoutAll_layoutCell, cells, List.map_map, List.map_filterMap, ← List.filterMap_eq_map]
    refine List.filterMap_congr fun child member => ?_
    obtain ⟨value, cell, -⟩ := shaped.exists_cell here member
    rw [Function.comp_apply, cell, found cell]
    rfl
  · rw [List.filter_eq_nil_iff.2]
    · rfl
    · intro child member
      have isCell : document.is child .cell = true := shaped.carries_of_branch? here child member
      simp [comesFromLine, isCell]

/-- A table of a well-shaped document is the layout of proper examples. -/
theorem exists_examples (shaped : document.WellShaped path) {name : Text}
    (here : document.branch? number = some ⟨parent, .examples name, line⟩) :
    ∃ examples : Examples, examples.Proper ∧
      document.Spells (document.preorder number) (examples.layout parent number)
        examples.entries := by
  obtain ⟨areRows, equal⟩ : document.Carries number .examples := shaped.carries_of_branch? here
  obtain ⟨width, aligned⟩ : ∃ width, ∀ child ∈ document.children number,
      (document.cells child).length = width := by
    cases rows : document.children number with
    | nil => exact ⟨0, List.forall_mem_nil _⟩
    | cons first others =>
        rw [rows] at equal
        exact ⟨_, fun child member => equal child member first List.mem_cons_self⟩
  have each : ∀ child ∈ document.children number, ∃ row : Row,
      (row.Proper ∧ row.cells.length = width) ∧
        document.Spells (document.preorder child) (row.layout number child) [row.entry] := by
    intro child member
    obtain ⟨⟨kind, rowLine⟩, found, same⟩ := exists_branch?_of_is member (areRows child member)
    cases kind <;> cases same
    obtain ⟨row, ⟨proper, same⟩, spells⟩ := shaped.exists_row found
    exact ⟨row, ⟨proper, same ▸ aligned child member⟩, spells⟩
  obtain ⟨rows, good, spells⟩ := shaped.exists_items here each
  refine ⟨⟨line, name, rows⟩, ⟨shaped.name_of_branch? here rfl, fun row member => (good row member).1,
    width, fun row member => (good row member).2⟩, ?_⟩
  rw [preorder_eq, Examples.entries, List.map_eq_flatMap]
  exact Spells.cons here (by simp [Kind.tag]) spells

/-- A block is rebuilt from its name and from what hangs below it. -/
theorem exists_block_of_form (shaped : document.WellShaped path) {name : Text} (form : Block.Form)
    (here : document.branch? number = some ⟨parent, form.kind name, line⟩)
    (proper : ∀ table ∈ form.tables, table.Proper)
    (spells : document.Spells ((document.children number).flatMap document.preorder)
      (layoutAll (Examples.layout number) (number + 1) form.tables)
      (form.tables.flatMap Examples.entries)) :
    ∃ block : Block, block.Proper ∧
      document.Spells (document.preorder number) (block.layout parent number) block.entries := by
  have other : (form.kind name).tag ≠ .cell := by cases form <;> simp [Block.Form.kind, Kind.tag]
  have same : (form.kind name).write (document.cells number) = (form.kind name).write [] := by
    cases form <;> rfl
  refine ⟨⟨line, name, form⟩, ⟨shaped.name_of_branch? here (Block.Form.name?_kind name form), proper⟩, ?_⟩
  rw [preorder_eq, Block.entries, ← same]
  exact Spells.cons here other spells

/-- A block of a well-shaped document is the layout of a proper block. -/
theorem exists_block (shaped : document.WellShaped path) {child : Nat}
    (member : child ∈ document.children number) (isBlock : document.isBlock child = true) :
    ∃ block : Block, block.Proper ∧
      document.Spells (document.preorder child) (block.layout number child) block.entries := by
  obtain ⟨⟨kind, line⟩, here⟩ := exists_branch?_of_mem_children member
  have carries := shaped.carries_of_branch? here
  rw [Document.isBlock, Document.is, Document.is, Document.is, kind?, node?_of_branch? here] at isBlock
  cases kind with
  | background name =>
      have leaf : document.children child = [] := carries
      refine shaped.exists_block_of_form .background here (List.forall_mem_nil _) ?_
      rw [leaf]
      exact ⟨rfl, rfl⟩
  | scenario name =>
      have leaf : document.children child = [] := carries
      refine shaped.exists_block_of_form .scenario here (List.forall_mem_nil _) ?_
      rw [leaf]
      exact ⟨rfl, rfl⟩
  | outline name =>
      have each : ∀ table ∈ document.children child, ∃ examples : Examples, examples.Proper ∧
          document.Spells (document.preorder table) (examples.layout child table)
            examples.entries := by
        intro table inside
        obtain ⟨⟨kind, tableLine⟩, found, same⟩ := exists_branch?_of_is inside (carries table inside)
        cases kind <;> cases same
        exact shaped.exists_examples found
      obtain ⟨tables, proper, spells⟩ := shaped.exists_items here each
      exact shaped.exists_block_of_form (.outline tables) here proper spells
  | _ => cases isBlock

/-- A rule of a well-shaped document is the layout of a proper rule. -/
theorem exists_rule (shaped : document.WellShaped path) {child : Nat}
    (member : child ∈ document.children number) (isRule : document.is child .rule = true) :
    ∃ rule : Rule, rule.Proper ∧
      document.Spells (document.preorder child) (rule.layout number child) rule.entries := by
  obtain ⟨⟨kind, line⟩, here, same⟩ := exists_branch?_of_is member isRule
  cases kind <;> cases same
  case rule name =>
    have carries : document.Carries child .rule := shaped.carries_of_branch? here
    obtain ⟨blocks, proper, spells⟩ := shaped.exists_items here fun block inside =>
      shaped.exists_block inside (carries block inside)
    refine ⟨⟨line, name, blocks⟩, ⟨shaped.name_of_branch? here rfl, proper⟩, ?_⟩
    rw [preorder_eq]
    exact Spells.cons here (by simp [Kind.tag]) spells

/-- The feature of a well-shaped document is the layout of a proper feature. -/
theorem exists_feature (shaped : document.WellShaped path) {child : Nat}
    (member : child ∈ document.children number) (isFeature : document.is child .feature = true) :
    ∃ feature : Feature, feature.Proper ∧
      document.Spells (document.preorder child) (feature.layout number child) feature.entries := by
  obtain ⟨⟨kind, line⟩, here, same⟩ := exists_branch?_of_is member isFeature
  cases kind <;> cases same
  case feature name =>
    have split : document.Carries child .feature := shaped.carries_of_branch? here
    obtain ⟨count, numbered⟩ := exists_flatMap_preorder_children shaped.walk
      (lt_size_of_parent? (parent?_of_branch? here))
    rw [split, List.flatMap_append] at numbered
    obtain ⟨length, _, numberedBlocks, numberedRules⟩ := List.range'_eq_append_iff.1 numbered.symm
    obtain ⟨blocks, -, properBlocks, spellsBlocks⟩ :=
      Spells.exists_items numberedBlocks fun block inside =>
        shaped.exists_block (List.mem_filter.1 inside).1 (List.mem_filter.1 inside).2
    obtain ⟨rules, -, properRules, spellsRules⟩ :=
      Spells.exists_items numberedRules fun rule inside =>
        shaped.exists_rule (List.mem_filter.1 inside).1 (List.mem_filter.1 inside).2
    have start : length * 1 = (layoutAll (Block.layout child) (child + 1) blocks).length := by
      rw [← spellsBlocks.length_eq, numberedBlocks, List.length_range', Nat.mul_one]
    rw [start] at spellsRules
    refine ⟨⟨line, name, blocks, rules⟩,
      ⟨shaped.name_of_branch? here rfl, properBlocks, properRules⟩, ?_⟩
    rw [preorder_eq, split, List.flatMap_append]
    exact Spells.cons here (by simp [Kind.tag]) (spellsBlocks.append spellsRules)

end WellShaped

/-- The numbers from one on are those of the branches. -/
theorem map_branch?_range' (document : Document) :
    (List.range' 1 document.branches.length).map document.branch? = document.branches.map some := by
  apply List.ext_getElem
  · simp
  · intro index _ inside
    simp [branch?, Nat.add_comm 1]

/-- A document with the root and the branches of a feature is the document of the feature. -/
theorem eq_ofFeature {path : Path} {feature? : Option Feature}
    (isFile : document.root = ⟨.file path, 1⟩)
    (same : document.branches = layoutAll (Feature.layout 0) 1 feature?.toList) :
    document = ofFeature path feature? := by
  obtain ⟨root, branches, grounded⟩ := document
  cases isFile
  cases same
  rfl

/-- A well-shaped document is the document of a proper feature. -/
theorem WellShaped.exists_ofFeature {path : Path} (shaped : document.WellShaped path) :
    ∃ feature?, (∀ feature ∈ feature?, feature.Proper) ∧ document = ofFeature path feature? ∧
      document.entries = feature?.toList.flatMap Feature.entries := by
  obtain ⟨single, areFeatures⟩ : document.Carries 0 .file :=
    shaped.carries 0 ((document.mem_walk_iff 0).2 (Nat.succ_pos _)) (.file path)
      (by rw [kind?, node?, shaped.root]; rfl)
  have walk : document.walk = 0 :: (document.children 0).flatMap document.preorder := by
    rw [walk_eq_preorder, preorder_eq]
  have numbered : (document.children 0).flatMap document.preorder =
      List.range' 1 document.branches.length := by
    have counted := shaped.walk
    rw [walk, List.range_eq_range', size, List.range'_succ] at counted
    exact (List.cons.inj counted).2
  obtain ⟨features, lengths, proper, spells⟩ := Spells.exists_items numbered fun child member =>
    shaped.exists_feature member (areFeatures child member)
  obtain ⟨feature?, rfl⟩ : ∃ feature? : Option Feature, features = feature?.toList := by
    rcases features with _ | ⟨feature, _ | ⟨second, others⟩⟩
    · exact ⟨none, rfl⟩
    · exact ⟨some feature, rfl⟩
    · rw [← lengths] at single
      simp at single
  refine ⟨feature?, fun feature member => proper feature (Option.mem_toList.2 member), ?_, ?_⟩
  · have same := spells.branches
    rw [numbered, map_branch?_range'] at same
    exact eq_ofFeature shaped.root (List.map_injective_iff.2 (fun _ _ => Option.some.inj) same)
  · rw [entries, walk, List.filter_cons_of_neg (by simp [comesFromLine])]
    exact spells.entries

end Document

end FeatureLint
