import FeatureLint.Proofs.Placement
import FeatureLint.Proofs.Proper
import Mathlib.Tactic.MkIffOfInductiveProp

/-!
This file describes the shape of documents. A document is well shaped when its root is a file, each
node carries only what belongs below it, names and cells are trimmed, the nodes are walked in the order
of their numbers, and their lines come in the same order. Main statement: every document that was
parsed is well shaped.
-/

namespace FeatureLint

namespace Document

def isBlock (document : Document) (number : Nat) : Bool :=
  document.is number .background || document.is number .scenario || document.is number .outline

/-- This says what may hang from a node with the given tag. -/
def Carries (document : Document) (number : Nat) : Tag → Prop
  | .file => (document.children number).length ≤ 1 ∧
      ∀ child ∈ document.children number, document.is child .feature = true
  | .feature => document.children number =
      (document.children number).filter document.isBlock ++ document.childrenWith number .rule
  | .rule => ∀ child ∈ document.children number, document.isBlock child = true
  | .outline => ∀ child ∈ document.children number, document.is child .examples = true
  | .examples => (∀ child ∈ document.children number, document.is child .row = true) ∧
      ∀ first ∈ document.children number, ∀ second ∈ document.children number,
        (document.cells first).length = (document.cells second).length
  | .row => ∀ child ∈ document.children number, document.is child .cell = true
  | .background | .scenario | .cell => document.children number = []

instance (document : Document) (number : Nat) : DecidablePred (document.Carries number)
  | .file | .examples => inferInstanceAs (Decidable (_ ∧ _))
  | .feature | .background | .scenario | .cell => inferInstanceAs (Decidable (_ = _))
  | .rule | .outline | .row => inferInstanceAs (Decidable (∀ child ∈ _, _ = true))

/-- A well-shaped document is a file with at most one feature, whose own blocks come before its rules.
Its nodes are numbered from the top of the file to the bottom. -/
@[mk_iff]
structure WellShaped (document : Document) (path : Path) : Prop where
  root : document.root = ⟨.file path, 1⟩
  carries : ∀ number ∈ document.walk, ∀ kind ∈ document.kind? number,
    document.Carries number kind.tag
  names : ∀ number ∈ document.walk, ∀ name ∈ document.name? number, Text.IsName name
  values : ∀ number ∈ document.walk, ∀ value ∈ (document.kind? number).bind Kind.value?,
    Text.trim value = value
  walk : document.walk = List.range document.size
  lines : ((document.walk.filter document.comesFromLine).filterMap document.line?).Pairwise (· < ·)
  positive : ∀ number ∈ document.walk, ∀ line ∈ document.line? number, 1 ≤ line
  cellLines : ∀ number ∈ document.walk, document.is number .cell = true →
    ∀ row ∈ document.parent? number, document.line? number = document.line? row

instance (document : Document) (path : Path) : Decidable (document.WellShaped path) :=
  decidable_of_iff' _ (wellShaped_iff document path)

end Document

/-- These are the branches that hang from a node, by their numbers, when the first branch is numbered
`next`. -/
def Branch.hanging (number next : Nat) (branches : List Branch) : List Nat :=
  (branches.zipIdx next).filterMap fun (branch, child) =>
    if branch.parent = number then some child else none

/-- What hangs from a node in two lists of branches hangs from it in one of them. -/
theorem Branch.hanging_append (number next : Nat) (first second : List Branch) :
    hanging number next (first ++ second) =
      hanging number next first ++ hanging number (next + first.length) second := by
  rw [hanging, List.zipIdx_append, List.filterMap_append, hanging, hanging]

/-- Nothing hangs from a node that is nobody's parent. -/
theorem Branch.hanging_eq_nil {number : Nat} (next : Nat) {branches : List Branch}
    (others : ∀ branch ∈ branches, branch.parent ≠ number) : hanging number next branches = [] := by
  rw [hanging, List.filterMap_eq_nil_iff]
  intro (branch, child) member
  exact if_neg (others branch (List.fst_mem_of_mem_zipIdx member))

/-- A first branch below the node hangs from it. -/
theorem Branch.hanging_cons_self (node : Node) (number next : Nat) (branches : List Branch) :
    hanging number next (⟨number, node⟩ :: branches) = next :: hanging number (next + 1) branches := by
  simp [hanging]

theorem Branch.hanging_cons_of_ne {branch : Branch} {number : Nat} (other : branch.parent ≠ number)
    (next : Nat) (branches : List Branch) :
    hanging number next (branch :: branches) = hanging number (next + 1) branches := by
  simp [hanging, other]

/-- These are the items that are laid out side by side, each with the number of its first node. -/
def numbered {Item : Type} (layout : Nat → Item → List Branch) :
    (next : Nat) → List Item → List (Nat × Item)
  | _, [] => []
  | next, item :: rest => (next, item) :: numbered layout (next + (layout next item).length) rest

theorem map_snd_numbered {Item : Type} (layout : Nat → Item → List Branch) (next : Nat)
    (items : List Item) : (numbered layout next items).map Prod.snd = items := by
  induction items generalizing next with
  | nil => rfl
  | cons item rest inductionHypothesis => rw [numbered, List.map_cons, inductionHypothesis]

theorem mem_of_mem_numbered {Item : Type} {layout : Nat → Item → List Branch} {next number : Nat}
    {items : List Item} {item : Item} (member : (number, item) ∈ numbered layout next items) :
    item ∈ items := by
  rw [← map_snd_numbered layout next items]
  exact List.mem_map_of_mem member

/-- Branches sprout from a parent when the first one hangs from it and the others hang from nodes of
their own. -/
def Sprouts (parent next : Nat) (branches : List Branch) : Prop :=
  ∃ node below, branches = ⟨parent, node⟩ :: below ∧ ∀ branch ∈ below, next ≤ branch.parent

namespace Sprouts

/-- Of branches that sprout from a parent only the first one hangs from it. -/
theorem hanging {parent next : Nat} {branches : List Branch} (sprouts : Sprouts parent next branches)
    (above : parent < next) : Branch.hanging parent next branches = [next] := by
  obtain ⟨node, below, rfl, later⟩ := sprouts
  have nothing : Branch.hanging parent (next + 1) below = [] := by
    refine Branch.hanging_eq_nil _ fun branch member => ?_
    have bound := later branch member
    omega
  rw [Branch.hanging_cons_self, nothing]

/-- Branches that sprout from a parent hang from it or from each other. -/
theorem parent_eq_or_le {parent next : Nat} {branches : List Branch}
    (sprouts : Sprouts parent next branches) {branch : Branch} (member : branch ∈ branches) :
    branch.parent = parent ∨ next ≤ branch.parent := by
  obtain ⟨node, below, rfl, later⟩ := sprouts
  rcases List.mem_cons.1 member with rfl | under
  · exact Or.inl rfl
  · exact Or.inr (later branch under)

variable {Item : Type} {layout : Nat → Item → List Branch} {parent : Nat}

/-- Items side by side hang from the parent or from their own nodes. -/
theorem layoutAll_parent (each : ∀ next item, Sprouts parent next (layout next item)) (next : Nat)
    (items : List Item) {branch : Branch} (member : branch ∈ layoutAll layout next items) :
    branch.parent = parent ∨ next ≤ branch.parent := by
  induction items generalizing next with
  | nil => cases member
  | cons item rest inductionHypothesis =>
      rcases List.mem_append.1 member with inside | later
      · exact (each next item).parent_eq_or_le inside
      · have bound := inductionHypothesis _ later
        omega

/-- A node sprouts with all items below it. -/
theorem under (each : ∀ next item, Sprouts parent next (layout next item)) (holder : Nat)
    (node : Node) (items : List Item) :
    Sprouts holder parent (⟨holder, node⟩ :: layoutAll layout (parent + 1) items) := by
  refine ⟨node, _, rfl, fun branch member => ?_⟩
  have bound := layoutAll_parent each (parent + 1) items member
  omega

/-- The items are what hangs from their parent. -/
theorem hanging_layoutAll (each : ∀ next item, Sprouts parent next (layout next item)) {next : Nat}
    (above : parent < next) (items : List Item) :
    Branch.hanging parent next (layoutAll layout next items) =
      (numbered layout next items).map Prod.fst := by
  induction items generalizing next with
  | nil => rfl
  | cons item rest inductionHypothesis =>
      rw [layoutAll, Branch.hanging_append, (each next item).hanging above, numbered, List.map_cons,
        inductionHypothesis (by omega)]
      rfl

/-- A cell sprouts from its row. -/
theorem cell (parent line next : Nat) (value : Text) :
    Sprouts parent next (Row.layoutCell parent line next value) :=
  ⟨_, [], rfl, List.forall_mem_nil _⟩

/-- A row sprouts from its table. -/
theorem row (parent number : Nat) (row : Row) : Sprouts parent number (row.layout parent number) :=
  under (cell number row.line) parent _ row.cells

/-- A table sprouts from its block. -/
theorem examples (parent number : Nat) (examples : Examples) :
    Sprouts parent number (examples.layout parent number) :=
  under (row number) parent _ examples.rows

/-- A block sprouts from its feature or rule. -/
theorem block (parent number : Nat) (block : Block) :
    Sprouts parent number (block.layout parent number) :=
  under (examples number) parent _ block.form.tables

/-- A rule sprouts from its feature. -/
theorem rule (parent number : Nat) (rule : Rule) :
    Sprouts parent number (rule.layout parent number) :=
  under (block number) parent _ rule.blocks

/-- A feature sprouts from its file. -/
theorem feature (parent number : Nat) (feature : Feature) :
    Sprouts parent number (feature.layout parent number) := by
  refine ⟨_, _, rfl, fun branch member => ?_⟩
  rcases List.mem_append.1 member with inBlocks | inRules
  · have bound := layoutAll_parent (block number) (number + 1) _ inBlocks
    omega
  · have bound := layoutAll_parent (rule number) _ _ inRules
    omega

end Sprouts

namespace Document

/-- The branches stand in the document from the number `next` on, and no other branch hangs from their
nodes. -/
def Holds (document : Document) (next : Nat) (branches : List Branch) : Prop :=
  ∃ before after, document.branches = before ++ branches ++ after ∧ next = before.length + 1 ∧
    ∀ branch ∈ after, branch.parent < next ∨ next + branches.length ≤ branch.parent

namespace Holds

variable {document : Document}

theorem all (document : Document) : document.Holds 1 document.branches :=
  ⟨[], [], by simp, rfl, List.forall_mem_nil _⟩

/-- A document holds the first of two lists of branches when the second does not hang from it. -/
theorem left {next : Nat} {first second : List Branch} (holds : document.Holds next (first ++ second))
    (apart : ∀ branch ∈ second, branch.parent < next ∨ next + first.length ≤ branch.parent) :
    document.Holds next first := by
  obtain ⟨before, after, placed, start, outside⟩ := holds
  refine ⟨before, second ++ after, by simp [placed], start, fun branch member => ?_⟩
  rcases List.mem_append.1 member with inside | later
  · exact apart branch inside
  · have bound := outside branch later
    rw [List.length_append] at bound
    omega

/-- A document holds the second of two lists of branches, from the number behind the first. -/
theorem right {next : Nat} {first second : List Branch}
    (holds : document.Holds next (first ++ second)) :
    document.Holds (next + first.length) second := by
  obtain ⟨before, after, placed, start, outside⟩ := holds
  refine ⟨before ++ first, after, by simp [placed], by simp [start]; omega, fun branch member => ?_⟩
  have bound := outside branch member
  rw [List.length_append] at bound
  omega

/-- A document holds what stands below a branch. -/
theorem below {number : Nat} {branch : Branch} {below : List Branch}
    (holds : document.Holds number (branch :: below)) : document.Holds (number + 1) below :=
  @right _ _ [branch] _ holds

/-- The number of the first branch that is held has the node of the branch. -/
theorem node? {number : Nat} {branch : Branch} {below : List Branch}
    (holds : document.Holds number (branch :: below)) : document.node? number = some branch.node := by
  obtain ⟨before, after, placed, rfl, -⟩ := holds
  simp [Document.node?, placed]

/-- The number of the first branch that is held has the tag of the branch. -/
theorem is {number : Nat} {branch : Branch} {below : List Branch}
    (holds : document.Holds number (branch :: below)) {tag : Tag}
    (same : branch.node.kind.tag = tag) : document.is number tag = true := by
  simp [Document.is, kind?, holds.node?, same]

/-- What hangs from a node is found among the branches after it. -/
theorem children {number : Nat} {branch : Branch} {below : List Branch}
    (holds : document.Holds number (branch :: below)) :
    document.children number = Branch.hanging number (number + 1) below := by
  obtain ⟨before, after, placed, start, outside⟩ := holds
  have grounded := document.grounded
  rw [placed, List.append_assoc, grounded_append] at grounded
  obtain ⟨groundedBefore, lower, -⟩ := grounded
  -- Earlier branches hang from still earlier nodes, and later ones pass this tree by.
  have inBefore : Branch.hanging number 1 before = [] := by
    refine Branch.hanging_eq_nil _ fun other member => ?_
    obtain ⟨index, inside, found⟩ := List.getElem_of_mem member
    have bound := groundedBefore.parent_lt (List.getElem?_eq_some_iff.2 ⟨inside, found⟩)
    omega
  have inAfter (next : Nat) : Branch.hanging number next after = [] := by
    refine Branch.hanging_eq_nil _ fun other member => ?_
    have bound := outside other member
    rw [List.length_cons] at bound
    omega
  change Branch.hanging number 1 document.branches = _
  rw [placed, Branch.hanging_append, Branch.hanging_append, inBefore, inAfter, List.append_nil,
    List.nil_append, Branch.hanging_cons_of_ne (by omega), start, Nat.add_comm 1]

/-- Where all items stand side by side, each of them stands with its own number. -/
theorem item {Item : Type} {layout : Nat → Item → List Branch} {parent next : Nat}
    (each : ∀ next item, Sprouts parent next (layout next item)) (above : parent < next)
    {items : List Item} (holds : document.Holds next (layoutAll layout next items)) {number : Nat}
    {item : Item} (member : (number, item) ∈ numbered layout next items) :
    document.Holds number (layout number item) := by
  induction items generalizing next with
  | nil => cases member
  | cons first rest inductionHypothesis =>
      rcases List.mem_cons.1 member with same | later
      · cases same
        -- The items after the first one hang from the parent or from each other.
        refine holds.left fun branch inside => ?_
        have bound := Sprouts.layoutAll_parent each _ rest inside
        omega
      · exact inductionHypothesis (by omega) holds.right later

end Holds

/-- A node fits when it carries what belongs below it and its own text is neat. -/
def Fits (document : Document) (number : Nat) : Prop :=
  ∀ kind ∈ document.kind? number, document.Carries number kind.tag ∧ kind.Neat

/-- All nodes of the branches fit when the first one is numbered `next`. -/
def FitsAll (document : Document) (next : Nat) (branches : List Branch) : Prop :=
  ∀ number, next ≤ number → number < next + branches.length → document.Fits number

namespace FitsAll

variable {document : Document}

theorem nil (next : Nat) : document.FitsAll next [] := by
  intro number above inside
  rw [List.length_nil] at inside
  omega

/-- Branches that fit can be put one after the other. -/
theorem append {next : Nat} {first second : List Branch} (left : document.FitsAll next first)
    (right : document.FitsAll (next + first.length) second) :
    document.FitsAll next (first ++ second) := by
  intro number above inside
  rw [List.length_append] at inside
  by_cases early : number < next + first.length
  · exact left number above early
  · exact right number (by omega) (by omega)

/-- A node that fits can be put in front of branches that fit. -/
theorem cons {number : Nat} {branch : Branch} {below : List Branch} (fits : document.Fits number)
    (under : document.FitsAll (number + 1) below) : document.FitsAll number (branch :: below) := by
  refine @append _ _ [branch] _ (fun other above inside => ?_) under
  rw [List.length_singleton] at inside
  rwa [show other = number by omega]

/-- Items side by side fit when each of them does. -/
theorem items {Item : Type} {layout : Nat → Item → List Branch} {next : Nat} {items : List Item}
    (each : ∀ number item, (number, item) ∈ numbered layout next items →
      document.FitsAll number (layout number item)) :
    document.FitsAll next (layoutAll layout next items) := by
  induction items generalizing next with
  | nil => exact nil next
  | cons item rest inductionHypothesis =>
      refine append (each next item List.mem_cons_self) (inductionHypothesis ?_)
      intro number later member
      exact each number later (List.mem_cons_of_mem _ member)

end FitsAll

variable {document : Document} {parent number : Nat}

/-- A branch that is held fits when its number carries what belongs below it. -/
theorem Holds.fits {branch : Branch} {below : List Branch}
    (holds : document.Holds number (branch :: below))
    (carries : document.Carries number branch.node.kind.tag) (neat : branch.node.kind.Neat) :
    document.Fits number := by
  intro kind found
  rw [kind?, holds.node?] at found
  cases found
  exact ⟨carries, neat⟩

/-- What hangs from a node with items below it are the items. -/
theorem Holds.children_under {Item : Type} {layout : Nat → Item → List Branch} {node : Node}
    (each : ∀ next item, Sprouts number next (layout next item)) {items : List Item}
    (holds : document.Holds number (⟨parent, node⟩ :: layoutAll layout (number + 1) items)) :
    document.children number = (numbered layout (number + 1) items).map Prod.fst := by
  rw [holds.children, Sprouts.hanging_layoutAll each (Nat.lt_succ_self number)]

/-- What hangs from a node with items below it is one of the items. -/
theorem Holds.exists_item {Item : Type} {layout : Nat → Item → List Branch} {node : Node}
    (each : ∀ next item, Sprouts number next (layout next item)) {items : List Item}
    (holds : document.Holds number (⟨parent, node⟩ :: layoutAll layout (number + 1) items))
    {child : Nat} (member : child ∈ document.children number) :
    ∃ item ∈ items, document.Holds child (layout child item) := by
  rw [holds.children_under each] at member
  obtain ⟨⟨_, item⟩, inside, rfl⟩ := List.mem_map.1 member
  exact ⟨item, mem_of_mem_numbered inside, holds.below.item each (Nat.lt_succ_self number) inside⟩

/-- A node fits with all items below it when it fits itself and so do the items. -/
theorem FitsAll.under {Item : Type} {layout : Nat → Item → List Branch} {node : Node}
    (each : ∀ next item, Sprouts number next (layout next item)) {items : List Item}
    (holds : document.Holds number (⟨parent, node⟩ :: layoutAll layout (number + 1) items))
    (fits : document.Fits number)
    (below : ∀ next item, item ∈ items → document.Holds next (layout next item) →
      document.FitsAll next (layout next item)) :
    document.FitsAll number (⟨parent, node⟩ :: layoutAll layout (number + 1) items) := by
  refine cons fits (FitsAll.items fun next item member => ?_)
  exact below next item (mem_of_mem_numbered member)
    (holds.below.item each (Nat.lt_succ_self number) member)

/-- The cells of a row that is held are the cells of the row. -/
theorem Holds.cells {row : Row} (holds : document.Holds number (row.layout parent number)) :
    document.cells number = row.cells := by
  have found : ∀ entry ∈ numbered (Row.layoutCell number row.line) (number + 1) row.cells,
      document.kind? entry.1 = some (.cell entry.2) := by
    intro (child, value) member
    have cell := holds.below.item (Sprouts.cell number row.line) (Nat.lt_succ_self number) member
    rw [kind?, cell.node?]
    rfl
  have onlyCells : document.childrenWith number .cell = document.children number := by
    refine List.filter_eq_self.2 fun child member => ?_
    obtain ⟨value, -, cell⟩ := holds.exists_item (Sprouts.cell number row.line) member
    exact cell.is rfl
  rw [Document.cells, onlyCells, holds.children_under (Sprouts.cell number row.line),
    List.filterMap_map]
  calc
    _ = (numbered (Row.layoutCell number row.line) (number + 1) row.cells).filterMap
          fun entry => some entry.2 :=
      List.filterMap_congr fun entry member => by
        rw [Function.comp_apply, found entry member]
        rfl
    _ = row.cells := by
      rw [← Function.comp_def, List.filterMap_eq_map, map_snd_numbered]

/-- A row that stands in a document fits with its cells. -/
theorem FitsAll.row {row : Row} (proper : row.Proper)
    (holds : document.Holds number (row.layout parent number)) :
    document.FitsAll number (row.layout parent number) := by
  refine under (Sprouts.cell number row.line) holds (holds.fits ?_ ⟨nofun, nofun⟩) ?_
  · intro child member
    obtain ⟨value, -, cell⟩ := holds.exists_item (Sprouts.cell number row.line) member
    exact cell.is rfl
  · intro next value member cell
    refine cons (cell.fits cell.children ⟨nofun, ?_⟩) (nil _)
    intro _ same
    cases same
    exact proper value member

/-- All nodes of proper examples fit. -/
theorem FitsAll.examples {examples : Examples} (proper : examples.Proper)
    (holds : document.Holds number (examples.layout parent number)) :
    document.FitsAll number (examples.layout parent number) := by
  have rows {child : Nat} (member : child ∈ document.children number) :=
    holds.exists_item (Sprouts.row number) member
  refine under (Sprouts.row number) holds
    (holds.fits ⟨?_, ?_⟩ (Kind.neat_of_name? rfl proper.name)) ?_
  · intro child member
    obtain ⟨row, -, here⟩ := rows member
    exact here.is rfl
  · intro first firstMember second secondMember
    obtain ⟨firstRow, inFirst, firstHere⟩ := rows firstMember
    obtain ⟨secondRow, inSecond, secondHere⟩ := rows secondMember
    obtain ⟨width, equal⟩ := proper.aligned
    rw [firstHere.cells, secondHere.cells, equal firstRow inFirst, equal secondRow inSecond]
  · exact fun next row member here => FitsAll.row (proper.rows row member) here

/-- A block that is held is a block of the document and no rule. -/
theorem Holds.isBlock {block : Block} (holds : document.Holds number (block.layout parent number)) :
    document.isBlock number = true ∧ document.is number .rule = false := by
  rw [Document.isBlock, Document.is, Document.is, Document.is, Document.is, kind?, holds.node?]
  cases block.form <;> exact ⟨rfl, rfl⟩

/-- A rule that is held is a rule of the document and no block. -/
theorem Holds.isRule {rule : Rule} (holds : document.Holds number (rule.layout parent number)) :
    document.isBlock number = false ∧ document.is number .rule = true := by
  rw [Document.isBlock, Document.is, Document.is, Document.is, Document.is, kind?, holds.node?]
  exact ⟨rfl, rfl⟩

/-- All nodes of a proper block fit. -/
theorem FitsAll.block {block : Block} (proper : block.Proper)
    (holds : document.Holds number (block.layout parent number)) :
    document.FitsAll number (block.layout parent number) := by
  have children := holds.children_under (Sprouts.examples number)
  refine under (Sprouts.examples number) holds
    (holds.fits ?_ (Kind.neat_of_name? (Block.Form.name?_kind _ _) proper.name)) ?_
  · cases form : block.form with
    | background =>
        rw [form] at children
        exact children
    | scenario =>
        rw [form] at children
        exact children
    | outline tables =>
        intro child member
        obtain ⟨table, -, here⟩ := holds.exists_item (Sprouts.examples number) member
        exact here.is rfl
  · exact fun next table member here => FitsAll.examples (proper.tables table member) here

/-- All nodes of a proper rule fit. -/
theorem FitsAll.rule {rule : Rule} (proper : rule.Proper)
    (holds : document.Holds number (rule.layout parent number)) :
    document.FitsAll number (rule.layout parent number) := by
  refine under (Sprouts.block number) holds
    (holds.fits ?_ (Kind.neat_of_name? rfl proper.name)) ?_
  · intro child member
    obtain ⟨block, -, here⟩ := holds.exists_item (Sprouts.block number) member
    exact here.isBlock.1
  · exact fun next block member here => FitsAll.block (proper.blocks block member) here

/-- A feature carries blocks and then rules. -/
theorem carries_feature {blocks rules : List Nat} (split : document.children number = blocks ++ rules)
    (areBlocks : ∀ child ∈ blocks, document.isBlock child = true ∧ document.is child .rule = false)
    (areRules : ∀ child ∈ rules, document.isBlock child = false ∧ document.is child .rule = true) :
    document.Carries number .feature := by
  have kept : blocks.filter document.isBlock = blocks :=
    List.filter_eq_self.2 fun child member => (areBlocks child member).1
  have noBlock : rules.filter document.isBlock = [] :=
    List.filter_eq_nil_iff.2 fun child member => by simp [(areRules child member).1]
  have noRule : blocks.filter (document.is · .rule) = [] :=
    List.filter_eq_nil_iff.2 fun child member => by simp [(areBlocks child member).2]
  have keptRules : rules.filter (document.is · .rule) = rules :=
    List.filter_eq_self.2 fun child member => (areRules child member).2
  rw [Carries, childrenWith, split, List.filter_append, List.filter_append, kept, noBlock, noRule,
    keptRules, List.append_nil, List.nil_append]

/-- All nodes of a proper feature fit. -/
theorem FitsAll.feature {feature : Feature} (proper : feature.Proper)
    (holds : document.Holds number (feature.layout parent number)) :
    document.FitsAll number (feature.layout parent number) := by
  have blockHolds : document.Holds (number + 1)
      (layoutAll (Block.layout number) (number + 1) feature.blocks) := by
    refine holds.below.left fun branch member => ?_
    have bound := Sprouts.layoutAll_parent (Sprouts.rule number) _ feature.rules member
    omega
  have blocks {child : Nat} {block : Block}
      (member : (child, block) ∈ numbered (Block.layout number) (number + 1) feature.blocks) :=
    blockHolds.item (Sprouts.block number) (Nat.lt_succ_self number) member
  have rules {child : Nat} {rule : Rule} (member : (child, rule) ∈ numbered (Rule.layout number)
      (number + 1 + (layoutAll (Block.layout number) (number + 1) feature.blocks).length)
        feature.rules) :=
    holds.below.right.item (Sprouts.rule number) (by omega) member
  have children := holds.children
  rw [Branch.hanging_append, Sprouts.hanging_layoutAll (Sprouts.block number) (by omega),
    Sprouts.hanging_layoutAll (Sprouts.rule number) (by omega)] at children
  refine cons (holds.fits (carries_feature children ?_ ?_) (Kind.neat_of_name? rfl proper.name))
    (append (FitsAll.items ?_) (FitsAll.items ?_))
  · intro child member
    obtain ⟨⟨_, block⟩, inside, rfl⟩ := List.mem_map.1 member
    exact (blocks inside).isBlock
  · intro child member
    obtain ⟨⟨_, rule⟩, inside, rfl⟩ := List.mem_map.1 member
    exact (rules inside).isRule
  · intro next block member
    exact FitsAll.block (proper.blocks block (mem_of_mem_numbered member)) (blocks member)
  · intro next rule member
    exact FitsAll.rule (proper.rules rule (mem_of_mem_numbered member)) (rules member)

/-- All nodes fit in the document of a proper feature. -/
theorem fits_ofFeature (path : Path) {feature? : Option Feature}
    (proper : ∀ feature ∈ feature?, feature.Proper) {number : Nat}
    (known : number < (ofFeature path feature?).size) : (ofFeature path feature?).Fits number := by
  have item {next : Nat} {feature : Feature}
      (member : (next, feature) ∈ numbered (Feature.layout 0) 1 feature?.toList) :=
    (Holds.all (ofFeature path feature?)).item (Sprouts.feature 0) Nat.zero_lt_one member
  by_cases isRoot : number = 0
  · subst isRoot
    have children : (ofFeature path feature?).children 0 =
        (numbered (Feature.layout 0) 1 feature?.toList).map Prod.fst :=
      Sprouts.hanging_layoutAll (Sprouts.feature 0) Nat.zero_lt_one _
    intro kind found
    cases found
    refine ⟨⟨?_, ?_⟩, nofun, nofun⟩
    · rw [children, List.length_map, ← List.length_map Prod.snd, map_snd_numbered]
      cases feature? <;> simp
    · intro child member
      rw [children] at member
      obtain ⟨⟨_, feature⟩, inside, rfl⟩ := List.mem_map.1 member
      exact (item inside).is rfl
  · have all : (ofFeature path feature?).FitsAll 1 (ofFeature path feature?).branches := by
      refine FitsAll.items fun next feature member => FitsAll.feature ?_ (item member)
      exact proper feature (Option.mem_toList.1 (mem_of_mem_numbered member))
    exact all number (by omega) (by rw [size] at known; omega)

end Document

/-- The lines outside doc strings keep their order. -/
theorem Line.outside_sublist (open? : Option Text) (lines : List Line) :
    (outside open? lines).Sublist lines := by
  fun_induction outside open? lines with
  | case1 => exact List.Sublist.slnil
  | case2 fence line rest inductionHypothesis => exact inductionHypothesis.cons line
  | case3 line rest isFence inductionHypothesis => exact inductionHypothesis.cons line
  | case4 line rest notFence inductionHypothesis => exact inductionHypothesis.cons_cons line

/-- Every line has its spot. -/
theorem Spot.map_line_ofLines (before lines : List Line) :
    (Spot.ofLines before lines).map Spot.line = lines := by
  induction lines generalizing before with
  | nil => rfl
  | cons line rest inductionHypothesis => rw [ofLines, List.map_cons, inductionHypothesis]

/-- The lines that make nodes are taken from all lines in their order. -/
theorem Planted.lines_sublist {lines : List Line} {next : Nat} {branches : List Branch}
    {placed : List (Nat × Spot)} (planted : Planted [] [] lines next branches placed) :
    (placed.map fun entry => entry.2.line).Sublist lines := by
  have made : placed.map (fun entry => entry.2.line) = (placed.map Prod.snd).map Spot.line := by
    rw [List.map_map]
    rfl
  have kept := (List.filter_sublist (p := Spot.makesNode) (l := Spot.ofLines [] lines)).map Spot.line
  rwa [← planted.map_snd, ← made, Spot.map_line_ofLines] at kept

namespace Document

/-- A node stands on the line that made it. -/
theorem line?_of_planted {document : Document} {lines : List Line} {placed : List (Nat × Spot)}
    (planted : Planted [] [] lines 1 document.branches placed) {number : Nat} {spot : Spot}
    (member : (number, spot) ∈ placed) : document.line? number = some spot.line.number := by
  obtain ⟨first, later, split⟩ := List.append_of_mem member
  obtain ⟨keyword, branch, -, inside, same, -⟩ := planted.exists_branch split
  obtain ⟨kind, -, sameNode⟩ := Option.map_eq_some_iff.1 same
  rw [line?, node?_of_mem_zipIdx inside, ← sameNode]
  rfl

/-- The nodes that come from lines stand on the lines that made them. -/
theorem lines_of_planted {document : Document} {lines : List Line} {placed : List (Nat × Spot)}
    (planted : Planted [] [] lines 1 document.branches placed) (uncrossed : document.Uncrossed) :
    (document.walk.filter document.comesFromLine).filterMap document.line? =
      (placed.map fun entry => entry.2.line).map Line.number := by
  rw [filter_comesFromLine uncrossed, ← planted.map_fst, List.filterMap_map, List.map_map,
    ← List.filterMap_eq_map]
  exact List.filterMap_congr fun entry member => line?_of_planted planted member

/-- Every node but the root is on a line that was planted. -/
theorem exists_line_of_planted {document : Document} (isFile : document.is 0 .file = true)
    {lines : List Line} {placed : List (Nat × Spot)}
    (planted : Planted [] [] lines 1 document.branches placed) (uncrossed : document.Uncrossed)
    {number : Nat} (member : number ∈ document.walk) (positive : number ≠ 0) :
    ∃ entry ∈ placed, document.line? number = some entry.2.line.number := by
  cases isCell : document.is number .cell with
  | true =>
      obtain ⟨row, spot, inside, -, -, line⟩ := exists_row_of_is_cell isFile planted isCell
      exact ⟨(row, spot), inside, line⟩
  | false =>
      have inside : number ∈ placed.map Prod.fst := by
        rw [planted.map_fst, ← filter_comesFromLine uncrossed]
        exact List.mem_filter.2 ⟨member, by simp [comesFromLine, positive, isCell]⟩
      obtain ⟨entry, inPlaced, rfl⟩ := List.mem_map.1 inside
      exact ⟨entry, inPlaced, line?_of_planted planted inPlaced⟩

/-- Every document that was parsed is well shaped. -/
theorem wellShaped_of_parse {path : Path} {source : Text} {document : Document}
    (parsed : parse path source = .ok document) : document.WellShaped path := by
  obtain ⟨placed, planted⟩ := Above.Describes.root.exists_planted 1
    (Line.outside none (Line.ofSource source))
  rw [← branches_of_parse parsed] at planted
  obtain ⟨feature?, read, rfl⟩ := exists_ofFeature_of_parse parsed
  have proper := Feature.proper_ofLines read fun _ => Line.text_of_mem_ofSource
  have fits {number : Nat} (member : number ∈ (ofFeature path feature?).walk) :=
    fits_ofFeature path proper (((ofFeature path feature?).mem_walk_iff number).1 member)
  have uncrossed := uncrossed_of_forest (forest_ofFeature path feature?)
  have taken := planted.lines_sublist.trans (Line.outside_sublist none _)
  refine ⟨rfl, ?_, ?_, ?_, uncrossed.walk_eq_range, ?_, ?_, ?_⟩
  · intro number member kind found
    exact (fits member kind found).1
  · intro number member name found
    obtain ⟨kind, here, named⟩ := Option.bind_eq_some_iff.1 found
    exact (fits member kind here).2.1 name named
  · intro number member value found
    obtain ⟨kind, here, valued⟩ := Option.bind_eq_some_iff.1 found
    exact (fits member kind here).2.2 value valued
  · rw [lines_of_planted planted uncrossed, List.pairwise_map]
    exact (Line.pairwise_number_ofSource source).sublist taken
  · intro number member line found
    by_cases isRoot : number = 0
    · subst isRoot
      cases found
      exact Nat.le_refl 1
    · obtain ⟨entry, inside, here⟩ := exists_line_of_planted rfl planted uncrossed member isRoot
      cases here.symm.trans found
      exact Line.one_le_number (taken.subset (List.mem_map_of_mem inside))
  · intro number member isCell row found
    obtain ⟨_, spot, placedRow, -, parent, line⟩ := exists_row_of_is_cell rfl planted isCell
    cases parent.symm.trans found
    rw [line, line?_of_planted planted placedRow]

/-- The table in the doc string leaves no trace, and neither do the blanks around names and cells. -/
theorem wellShaped_of_parse_with_rule :
    let path : Path := ⟨"a.feature".toList⟩
    let source := (" Feature:  F \nBackground:\n\"\"\"\n| x |\n\"\"\"\nRule: R\nScenario: S\n" ++
      "Examples: E\n|  x  | y |\n| 1 | \\| |\n").toList
    let document := ofFeature path (some ⟨1, "F".toList, [⟨2, [], .background⟩], [⟨6, "R".toList,
      [⟨7, "S".toList, .outline [⟨8, "E".toList,
        [⟨9, ["x".toList, "y".toList]⟩, ⟨10, ["1".toList, "|".toList]⟩]⟩]⟩]⟩]⟩)
    parse path source = .ok document ∧ document.WellShaped path := by
  intro path source document
  have parsed : parse path source = .ok document := by with_unfolding_all rfl
  exact ⟨parsed, wellShaped_of_parse parsed⟩

end Document

end FeatureLint
