import FeatureLint.Proofs.Growth
import Mathlib.Data.List.Basic

/-!
This file ties the nodes of a document to the lines of its source. Each heading outside doc strings
and each row of an examples table makes one node, and the node hangs from the node of the nearest line
before it that may hold it. Main statement: the nodes of a document that was parsed are exactly those
of its lines, in the same order, with the same texts and below the right parents.
-/

namespace FeatureLint

/-- This test asks whether a line with the first keyword may hold a line with the second keyword. -/
def Keyword.holds : Keyword → Keyword → Bool
  | feature, rule => true
  | feature, background | feature, scenario | feature, outline => true
  | rule, background | rule, scenario | rule, outline => true
  | background, examples | scenario, examples | outline, examples => true
  | examples, row => true
  | _, _ => false

/-- This test asks whether a line with the given keyword may make a node with the given tag. -/
def Keyword.makes : Keyword → Tag → Bool
  | feature, .feature | rule, .rule | background, .background => true
  | scenario, .scenario | scenario, .outline | outline, .outline => true
  | examples, .examples | row, .row => true
  | _, _ => false

/-- A spot is a line between the lines before it, the nearest one first, and the lines after it. -/
structure Spot where
  before : List Line
  line : Line
  after : List Line
deriving DecidableEq, Repr

/-- These are the values of the cells that hang from a node. -/
def Branch.valuesBelow (number : Nat) (branches : List Branch) : List Text :=
  branches.filterMap fun branch => if branch.parent = number then branch.node.kind.value? else none

/-- Only cells have values. -/
theorem Kind.value?_eq_none {kind : Kind} (other : kind.tag ≠ .cell) : kind.value? = none := by
  cases kind <;> first | rfl | contradiction

/-- A node that no cell hangs from has no values below it. -/
theorem Branch.valuesBelow_eq_nil {number : Nat} {branches : List Branch}
    (others : ∀ branch ∈ branches, branch.node.kind.tag = .cell → branch.parent ≠ number) :
    valuesBelow number branches = [] := by
  rw [valuesBelow, List.filterMap_eq_nil_iff]
  intro branch member
  by_cases isCell : branch.node.kind.tag = .cell
  · rw [if_neg (others branch member isCell)]
  · rw [Kind.value?_eq_none isCell, ite_self]

namespace Spot

/-- These are the spots of all lines. -/
def ofLines (before : List Line) : List Line → List Spot
  | [] => []
  | line :: rest => ⟨before, line, rest⟩ :: ofLines (line :: before) rest

/-- This is the kind of the node that a line makes. A scenario whose next heading is one of examples
is an outline, and a row counts when the last heading before it is one of examples. -/
def kind? (spot : Spot) : Option Kind :=
  match spot.line.keyword? with
  | some .feature => some (.feature spot.line.text)
  | some .rule => some (.rule spot.line.text)
  | some .background => some (.background spot.line.text)
  | some .scenario =>
      some (if Line.meetExamples spot.after then .outline spot.line.text
        else .scenario spot.line.text)
  | some .outline => some (.outline spot.line.text)
  | some .examples => some (.examples spot.line.text)
  | some .row => if Line.meetExamples spot.before then some .row else none
  | _ => none

def makesNode (spot : Spot) : Bool :=
  spot.kind?.isSome

def node? (spot : Spot) : Option Node :=
  spot.kind?.map fun kind => ⟨kind, spot.line.number⟩

/-- Only a row has cells. -/
def cells (spot : Spot) : List Text :=
  if spot.line.keyword? = some .row then Row.cellsOf spot.line.content else []

/-- This is the number of the nearest node whose line may hold a line with the given keyword. The
nearest node comes first. -/
def nearest? (placed : List (Nat × Spot)) (keyword : Keyword) : Option Nat :=
  (placed.find? fun (_, spot) => spot.line.keyword?.any fun above => above.holds keyword).map Prod.fst

/-- A feature hangs from the root, and every other line from the nearest line before it that may hold
it. -/
def parentAmong? (earlier : List (Nat × Spot)) (spot : Spot) : Option Nat :=
  spot.line.keyword?.bind fun keyword =>
    if keyword = .feature then some 0 else nearest? earlier.reverse keyword

/-- The nearest node that may hold a keyword is the last one when that may. -/
theorem nearest?_cons (placed : List (Nat × Spot)) (number : Nat) (spot : Spot) (keyword : Keyword) :
    nearest? ((number, spot) :: placed) keyword =
      if spot.line.keyword?.any (fun above => above.holds keyword) = true then some number
      else nearest? placed keyword := by
  rw [nearest?, List.find?_cons]
  split <;> simp_all [nearest?]

/-- All blocks ask for the same holder. -/
theorem nearest?_of_opensBlock {keyword : Keyword} (opens : keyword.opensBlock = true)
    (placed : List (Nat × Spot)) : nearest? placed keyword = nearest? placed .scenario := by
  have same : ∀ above : Keyword, above.holds keyword = above.holds .scenario := by
    intro above
    cases keyword <;> first | contradiction | cases above <;> rfl
  simp only [nearest?, same]

/-- Nothing holds a feature but the root. -/
theorem nearest?_feature (placed : List (Nat × Spot)) : nearest? placed .feature = none := by
  have nothing : ∀ above : Keyword, above.holds .feature = false := by
    intro above
    cases above <;> rfl
  simp [nearest?, nothing]

/-- The keyword of a line and the tag of the node that it makes belong together. -/
theorem exists_keyword {spot : Spot} {kind : Kind} (made : spot.kind? = some kind) :
    ∃ keyword, spot.line.keyword? = some keyword ∧ keyword.makes kind.tag = true := by
  cases found : spot.line.keyword? with
  | none => simp [kind?, found] at made
  | some keyword =>
      refine ⟨keyword, rfl, ?_⟩
      cases keyword <;> simp only [kind?, found, reduceCtorEq] at made
      case scenario =>
        cases made
        split <;> rfl
      case row =>
        split at made
        · cases made
          rfl
        · cases made
      all_goals
        cases made
        rfl

/-- No line makes a cell alone. -/
theorem tag_ne_cell {spot : Spot} {kind : Kind} (made : spot.kind? = some kind) :
    kind.tag ≠ .cell := by
  intro isCell
  obtain ⟨keyword, -, makes⟩ := exists_keyword made
  rw [isCell] at makes
  cases keyword <;> contradiction

/-- These are the branches of the cells when the row gets the number `number`. -/
def cellBranches (spot : Spot) (number : Nat) : List Branch :=
  spot.cells.map fun value => ⟨number, .cell value, spot.line.number⟩

/-- The values below a row are the cells of its spot. -/
theorem valuesBelow_cellBranches (spot : Spot) (number : Nat) :
    Branch.valuesBelow number (spot.cellBranches number) = spot.cells := by
  rw [Branch.valuesBelow, cellBranches, List.filterMap_map]
  simp [Function.comp_def, Kind.value?]

/-- The branches of cells are cells. -/
theorem tag_of_mem_cellBranches {spot : Spot} {number : Nat} {branch : Branch}
    (member : branch ∈ spot.cellBranches number) : branch.node.kind.tag = .cell := by
  obtain ⟨value, -, rfl⟩ := List.mem_map.1 member
  rfl

/-- Cells hang from a row and stand on its line. -/
theorem row_of_mem_cellBranches {spot : Spot} {number : Nat} {branch : Branch} {kind : Kind}
    (member : branch ∈ spot.cellBranches number) (made : spot.kind? = some kind) :
    branch.parent = number ∧ branch.node.line = spot.line.number ∧ kind = .row := by
  obtain ⟨value, inside, rfl⟩ := List.mem_map.1 member
  refine ⟨rfl, rfl, ?_⟩
  have isRow : spot.line.keyword? = some .row := by
    by_contra other
    simp [cells, other] at inside
  obtain ⟨keyword, found, makes⟩ := exists_keyword made
  rw [isRow] at found
  cases found
  cases kind <;> first | rfl | contradiction

end Spot

/-- All nodes but the root and the cells come from lines of their own. -/
def Document.comesFromLine (document : Document) (number : Nat) : Bool :=
  number ≠ 0 && !document.is number .cell

/-- A list of nodes with their spots places the nodes of a document when it lists them in order, each
with the line that made it. -/
structure Document.Places (document : Document) (spots : List Spot) (placed : List (Nat × Spot)) :
    Prop where
  numbers : placed.map Prod.fst = document.walk.filter document.comesFromLine
  lines : placed.map Prod.snd = spots.filter Spot.makesNode
  node : ∀ number spot, (number, spot) ∈ placed → document.node? number = spot.node?
  cells : ∀ number spot, (number, spot) ∈ placed → document.cells number = spot.cells
  parent : ∀ earlier number spot later, placed = earlier ++ (number, spot) :: later →
    document.parent? number = spot.parentAmong? earlier
  row : ∀ number, document.is number .cell = true → ∃ row spot, (row, spot) ∈ placed ∧
    spot.kind? = some .row ∧ document.parent? number = some row ∧
      document.line? number = some spot.line.number

/-- The branches are planted when each line that makes a node has put it, with its cells, below the
nearest node that may hold it, or below the root. The numbers start at `next`, and the nodes of the
lines before come with the nearest one first. -/
inductive Planted : (earlier : List (Nat × Spot)) → (before lines : List Line) → (next : Nat) →
    List Branch → List (Nat × Spot) → Prop where
  | nil {earlier : List (Nat × Spot)} {before : List Line} {next : Nat} :
      Planted earlier before [] next [] []
  | skip {earlier placed : List (Nat × Spot)} {before rest : List Line} {line : Line} {next : Nat}
      {branches : List Branch} :
      Spot.kind? ⟨before, line, rest⟩ = none →
      Planted earlier (line :: before) rest next branches placed →
      Planted earlier before (line :: rest) next branches placed
  | make {earlier placed : List (Nat × Spot)} {before rest : List Line} {line : Line} {next : Nat}
      {branches : List Branch} {keyword : Keyword} {kind : Kind} :
      line.keyword? = some keyword →
      Spot.kind? ⟨before, line, rest⟩ = some kind →
      Planted ((next, ⟨before, line, rest⟩) :: earlier) (line :: before) rest
        (next + 1 + (Spot.cellBranches ⟨before, line, rest⟩ next).length) branches placed →
      Planted earlier before (line :: rest) next
        (⟨(Spot.nearest? earlier keyword).getD 0, kind, line.number⟩ ::
          (Spot.cellBranches ⟨before, line, rest⟩ next ++ branches))
        ((next, ⟨before, line, rest⟩) :: placed)

/-- What stands above the next line is what the lines before it have put there. -/
structure Above.Describes (above : Above) (before : List Line) (earlier : List (Nat × Spot)) :
    Prop where
  feature : above.feature = (Spot.nearest? earlier .rule).getD 0
  holder : above.holder = (Spot.nearest? earlier .scenario).getD 0
  block : above.block = (Spot.nearest? earlier .examples).getD 0
  table : above.table? =
    if Line.meetExamples before then some ((Spot.nearest? earlier .row).getD 0) else none

/-- Cells are laid out one behind the other. -/
theorem Row.layoutAll_layoutCell (parent line next : Nat) (values : List Text) :
    layoutAll (layoutCell parent line) next values =
      values.map fun value => ⟨parent, .cell value, line⟩ := by
  induction values generalizing next with
  | nil => rfl
  | cons value rest inductionHypothesis =>
      rw [layoutAll, inductionHypothesis]
      rfl

namespace Above.Describes

theorem root : Above.root.Describes [] [] :=
  ⟨rfl, rfl, rfl, rfl⟩

/-- The branches of one line are its node below the nearest holder, and its cells below the node. -/
theorem branches_of_kind? {above : Above} {before : List Line} {earlier : List (Nat × Spot)}
    (describes : above.Describes before earlier) (next : Nat) {line : Line} (rest : List Line)
    {keyword : Keyword} {kind : Kind} (found : line.keyword? = some keyword)
    (made : Spot.kind? ⟨before, line, rest⟩ = some kind) :
    above.branches next line rest =
      ⟨(Spot.nearest? earlier keyword).getD 0, kind, line.number⟩ ::
        Spot.cellBranches ⟨before, line, rest⟩ next := by
  cases keyword
  case feature =>
    simp only [Spot.kind?, found, Option.some.injEq] at made
    simp [branches, found, Spot.cellBranches, Spot.cells, Spot.nearest?_feature, made]
  case rule =>
    simp only [Spot.kind?, found, Option.some.injEq] at made
    simp [branches, found, Spot.cellBranches, Spot.cells, describes.feature, made]
  case background | scenario | outline =>
    simp only [Spot.kind?, found, Option.some.injEq] at made
    rw [Spot.nearest?_of_opensBlock rfl]
    simp [branches, found, Spot.cellBranches, Spot.cells, describes.holder, made]
  case examples =>
    simp only [Spot.kind?, found, Option.some.injEq] at made
    simp [branches, found, Spot.cellBranches, Spot.cells, describes.block, made]
  case row =>
    have table := describes.table
    simp only [Spot.kind?, found] at made
    split at made
    · next isExamples =>
        cases made
        rw [if_pos isExamples] at table
        simp [branches, found, Spot.cellBranches, Spot.cells, table, Row.layout, Row.layoutAll_layoutCell]
    · contradiction
  all_goals simp [Spot.kind?, found] at made

/-- A line that makes no node adds no branches. -/
theorem branches_of_kind?_eq_none {above : Above} {before : List Line}
    {earlier : List (Nat × Spot)} (describes : above.Describes before earlier) (next : Nat)
    {line : Line} (rest : List Line) (silent : Spot.kind? ⟨before, line, rest⟩ = none) :
    above.branches next line rest = [] := by
  have table := describes.table
  unfold Spot.kind? at silent
  unfold branches
  split <;> simp_all

/-- A line that makes a node stands above the lines after it. -/
theorem enter_of_kind? {above : Above} {before : List Line} {earlier : List (Nat × Spot)}
    (describes : above.Describes before earlier) (next : Nat) {line : Line} (rest : List Line)
    {kind : Kind} (made : Spot.kind? ⟨before, line, rest⟩ = some kind) :
    (above.enter next line).Describes (line :: before) ((next, ⟨before, line, rest⟩) :: earlier) := by
  obtain ⟨feature, holder, block, table⟩ := describes
  cases found : line.keyword? with
  | none => simp [Spot.kind?, found] at made
  | some keyword =>
      cases keyword
      case step | tag | comment | fence => simp [Spot.kind?, found] at made
      all_goals refine ⟨?_, ?_, ?_, ?_⟩
      all_goals
        simp [enter, found, Spot.nearest?_cons, Keyword.holds, Line.meetExamples_cons found before,
          Keyword.opensSection, Keyword.opensBlock, feature, holder, block, table]

/-- A line that makes no node changes nothing above the next line. -/
theorem enter_of_kind?_eq_none {above : Above} {before : List Line} {earlier : List (Nat × Spot)}
    (describes : above.Describes before earlier) (next : Nat) {line : Line} (rest : List Line)
    (silent : Spot.kind? ⟨before, line, rest⟩ = none) :
    (above.enter next line).Describes (line :: before) earlier := by
  have other : line.isHeading = false := by
    cases found : line.keyword? with
    | none => simp [Line.isHeading, Line.opensSection, found]
    | some keyword => cases keyword <;> simp_all [Line.isHeading, Line.opensSection,
        Keyword.opensSection, Keyword.opensBlock, Spot.kind?]
  have stays : above.enter next line = above := by
    unfold enter
    split <;> simp_all [Line.isHeading, Line.opensSection,
        Keyword.opensSection, Keyword.opensBlock]
  have same : Line.meetExamples (line :: before) = Line.meetExamples before := by
    rw [Line.meetExamples, List.find?_cons_of_neg (by simp [other]), Line.meetExamples]
  rw [stays]
  exact ⟨describes.feature, describes.holder, describes.block, same ▸ describes.table⟩

/-- Growing plants the branches. -/
theorem exists_planted {above : Above} {before : List Line} {earlier : List (Nat × Spot)}
    (describes : above.Describes before earlier) (next : Nat) (lines : List Line) :
    ∃ placed, Planted earlier before lines next (above.growth next lines) placed := by
  induction lines generalizing above before earlier next with
  | nil => exact ⟨[], Planted.nil⟩
  | cons line rest inductionHypothesis =>
      cases made : Spot.kind? ⟨before, line, rest⟩ with
      | none =>
          obtain ⟨placed, planted⟩ :=
            inductionHypothesis (describes.enter_of_kind?_eq_none next rest made) next
          refine ⟨placed, Planted.skip made ?_⟩
          rw [growth, describes.branches_of_kind?_eq_none next rest made]
          exact planted
      | some kind =>
          obtain ⟨keyword, found, -⟩ := Spot.exists_keyword made
          obtain ⟨placed, planted⟩ := inductionHypothesis (describes.enter_of_kind? next rest made)
            (next + 1 + (Spot.cellBranches ⟨before, line, rest⟩ next).length)
          refine ⟨(next, ⟨before, line, rest⟩) :: placed, ?_⟩
          rw [growth, describes.branches_of_kind? next rest found made, List.length_cons,
            Nat.add_comm _ 1, ← Nat.add_assoc]
          exact Planted.make found made planted

end Above.Describes

namespace Planted

variable {earlier placed : List (Nat × Spot)} {before lines : List Line} {next : Nat}
  {branches : List Branch}

/-- The spots that were planted are those that make nodes, in order. -/
theorem map_snd (planted : Planted earlier before lines next branches placed) :
    placed.map Prod.snd = (Spot.ofLines before lines).filter Spot.makesNode := by
  induction planted with
  | nil => rfl
  | skip silent _ inductionHypothesis =>
      rw [inductionHypothesis, Spot.ofLines, List.filter_cons_of_neg]
      simp [Spot.makesNode, silent]
  | make _ made _ inductionHypothesis =>
      rw [List.map_cons, inductionHypothesis, Spot.ofLines, List.filter_cons_of_pos]
      simp [Spot.makesNode, made]

/-- The numbers that were planted are those of the branches without the cells. -/
theorem map_fst (planted : Planted earlier before lines next branches placed) :
    placed.map Prod.fst =
      ((branches.zipIdx next).filter fun (branch, _) => branch.node.kind.tag ≠ .cell).map
        Prod.snd := by
  induction planted with
  | nil => rfl
  | skip _ _ inductionHypothesis => exact inductionHypothesis
  | @make earlier placed before rest line next branches keyword kind found made _ inductionHypothesis =>
      have onlyCells : ((Spot.cellBranches ⟨before, line, rest⟩ next).zipIdx (next + 1)).filter
          (fun (branch, _) => branch.node.kind.tag ≠ .cell) = [] := by
        rw [List.filter_eq_nil_iff]
        intro (branch, number) member
        have isCell := Spot.tag_of_mem_cellBranches (List.fst_mem_of_mem_zipIdx member)
        simp [isCell]
      rw [List.zipIdx_cons, List.filter_cons_of_pos (by simp [Spot.tag_ne_cell made]),
        List.zipIdx_append, List.filter_append, onlyCells, List.map_cons, List.map_cons,
        inductionHypothesis]
      rfl

/-- Each node is its spot's node and hangs from the nearest node before it that may hold it. -/
theorem exists_branch (planted : Planted earlier before lines next branches placed)
    {first later : List (Nat × Spot)} {number : Nat} {spot : Spot}
    (split : placed = first ++ (number, spot) :: later) :
    ∃ keyword branch, spot.line.keyword? = some keyword ∧ (branch, number) ∈ branches.zipIdx next ∧
      spot.node? = some branch.node ∧
      branch.parent = (Spot.nearest? (first.reverse ++ earlier) keyword).getD 0 := by
  induction planted generalizing first with
  | nil => simp at split
  | skip _ _ inductionHypothesis => exact inductionHypothesis split
  | @make earlier placed before rest line next branches keyword kind found made _ inductionHypothesis =>
      cases first with
      | nil =>
          cases split
          refine ⟨keyword, _, found, List.mem_cons_self, ?_, rfl⟩
          simp [Spot.node?, made]
      | cons head others =>
          cases split
          obtain ⟨keyword, branch, foundToo, member, same, parent⟩ := inductionHypothesis rfl
          refine ⟨keyword, branch, foundToo, ?_, same, ?_⟩
          · rw [List.zipIdx_cons, List.zipIdx_append]
            exact List.mem_cons_of_mem _ (List.mem_append_right _ member)
          · simpa using parent

/-- Planted nodes are numbered from the first number on. -/
theorem le_number (planted : Planted earlier before lines next branches placed) {number : Nat}
    {spot : Spot} (member : (number, spot) ∈ placed) : next ≤ number := by
  induction planted with
  | nil => cases member
  | skip _ _ inductionHypothesis => exact inductionHypothesis member
  | make _ _ _ inductionHypothesis =>
      rcases List.mem_cons.1 member with same | later
      · cases same
        exact Nat.le_refl _
      · have bound := inductionHypothesis later
        omega

/-- A cell hangs from a row, and both stand on the same line. -/
theorem exists_row (planted : Planted earlier before lines next branches placed) {branch : Branch}
    (member : branch ∈ branches) (isCell : branch.node.kind.tag = .cell) :
    ∃ spot, (branch.parent, spot) ∈ placed ∧ spot.kind? = some .row ∧
      branch.node.line = spot.line.number := by
  induction planted with
  | nil => cases member
  | skip _ _ inductionHypothesis => exact inductionHypothesis member
  | @make earlier placed before rest line next branches keyword kind found made _ inductionHypothesis =>
      rcases List.mem_cons.1 member with rfl | below
      · exact absurd isCell (Spot.tag_ne_cell made)
      · rcases List.mem_append.1 below with inside | later
        · obtain ⟨parent, line, isRow⟩ := Spot.row_of_mem_cellBranches inside made
          exact ⟨⟨before, _, rest⟩, by rw [parent]; exact List.mem_cons_self, isRow ▸ made, line⟩
        · obtain ⟨spot, known, isRow, sameLine⟩ := inductionHypothesis later
          exact ⟨spot, List.mem_cons_of_mem _ known, isRow, sameLine⟩

/-- The cells below a node are those of its line. -/
theorem valuesBelow (planted : Planted earlier before lines next branches placed) {number : Nat}
    {spot : Spot} (member : (number, spot) ∈ placed) :
    Branch.valuesBelow number branches = spot.cells := by
  induction planted with
  | nil => cases member
  | skip _ _ inductionHypothesis => exact inductionHypothesis member
  | @make earlier placed before rest line next branches keyword kind found made planted
      inductionHypothesis =>
      have noValue : kind.value? = none := Kind.value?_eq_none (Spot.tag_ne_cell made)
      have split : Branch.valuesBelow number (⟨(Spot.nearest? earlier keyword).getD 0, kind, line.number⟩ ::
          (Spot.cellBranches ⟨before, line, rest⟩ next ++ branches)) =
          Branch.valuesBelow number (Spot.cellBranches ⟨before, line, rest⟩ next) ++
            Branch.valuesBelow number branches := by
        simp [Branch.valuesBelow, noValue]
      rw [split]
      rcases List.mem_cons.1 member with same | later
      · cases same
        have nothing : Branch.valuesBelow number branches = [] := by
          apply Branch.valuesBelow_eq_nil
          intro branch inside isCell
          obtain ⟨row, known, -, -⟩ := planted.exists_row inside isCell
          have bound := planted.le_number known
          omega
        rw [Spot.valuesBelow_cellBranches, nothing, List.append_nil]
      · have bound := planted.le_number later
        have nothing : Branch.valuesBelow number (Spot.cellBranches ⟨before, line, rest⟩ next) = [] := by
          apply Branch.valuesBelow_eq_nil
          intro branch inside _
          have parent := (Spot.row_of_mem_cellBranches inside made).1
          omega
        rw [nothing, List.nil_append]
        exact inductionHypothesis later

end Planted

namespace Document

theorem node?_of_mem_zipIdx {document : Document} {branch : Branch} {number : Nat}
    (member : (branch, number) ∈ document.branches.zipIdx 1) :
    document.node? number = some branch.node := by
  obtain ⟨above, here⟩ := List.mk_mem_zipIdx_iff_le_and_getElem?_sub.1 member
  obtain ⟨index, rfl⟩ := Nat.exists_eq_add_of_le' above
  rw [Nat.add_sub_cancel] at here
  simp [node?, here]

theorem is_of_mem_zipIdx {document : Document} {branch : Branch} {number : Nat}
    (member : (branch, number) ∈ document.branches.zipIdx 1) (tag : Tag) :
    document.is number tag = decide (branch.node.kind.tag = tag) := by
  simp [is, kind?, node?_of_mem_zipIdx member]

/-- The cells of a node are the values below it. -/
theorem cells_eq_valuesBelow (document : Document) (number : Nat) :
    document.cells number = Branch.valuesBelow number document.branches := by
  have numbered : Branch.valuesBelow number document.branches =
      (document.branches.zipIdx 1).filterMap fun entry =>
        if entry.1.parent = number then entry.1.node.kind.value? else none := by
    rw [Branch.valuesBelow]
    nth_rewrite 1 [← List.zipIdx_map_fst 1 document.branches]
    rw [List.filterMap_map]
    rfl
  rw [numbered, cells, childrenWith, children, List.filterMap_filter, List.filterMap_filterMap]
  apply List.filterMap_congr
  rintro ⟨branch, child⟩ member
  by_cases below : branch.parent = number
  · simp only [if_pos below, Option.bind_some, is_of_mem_zipIdx member, kind?,
      node?_of_mem_zipIdx member, Option.map_some, decide_eq_true_eq]
    split
    · rfl
    · next other => exact (Kind.value?_eq_none other).symm
  · simp [below]

/-- The nodes that come from lines are walked in the order of their numbers. -/
theorem filter_comesFromLine {document : Document} (uncrossed : document.Uncrossed) :
    document.walk.filter document.comesFromLine =
      ((document.branches.zipIdx 1).filter fun (branch, _) => branch.node.kind.tag ≠ .cell).map
        Prod.snd := by
  have numbers : List.range document.size = 0 :: (document.branches.zipIdx 1).map Prod.snd := by
    rw [List.zipIdx_map_snd, List.range_eq_range', size, List.range'_succ]
  rw [uncrossed.walk_eq_range, numbers, List.filter_cons_of_neg (by simp [comesFromLine]),
    List.filter_map]
  congr 1
  apply List.filter_congr
  intro (branch, number) member
  have positive := (List.mk_mem_zipIdx_iff_le_and_getElem?_sub.1 member).1
  simp [comesFromLine, is_of_mem_zipIdx member, Nat.ne_of_gt positive]

/-- Only a feature hangs from the root of a document that was parsed. -/
theorem feature_of_parent?_eq_zero {document : Document} {number : Nat} {tag : Tag}
    (forest : Forest .file 0 1 document.branches) (isFile : document.is 0 .file = true)
    (found : document.parent? number = some 0) (isTag : document.is number tag = true) :
    tag = .feature := by
  obtain ⟨holder, isHolder, held⟩ := exists_holder_of_forest forest isFile found isTag
  rw [tag_unique isHolder isFile] at held
  cases tag <;> first | rfl | contradiction

/-- A node hangs from the nearest line before it that may hold it, because one without such a line
would hang from the root, which holds nothing but the feature. -/
theorem parent?_eq_parentAmong? {document : Document} (forest : Forest .file 0 1 document.branches)
    (isFile : document.is 0 .file = true) {lines : List Line} {placed : List (Nat × Spot)}
    (planted : Planted [] [] lines 1 document.branches placed) {earlier later : List (Nat × Spot)}
    {number : Nat} {spot : Spot} (split : placed = earlier ++ (number, spot) :: later) :
    document.parent? number = spot.parentAmong? earlier := by
  obtain ⟨keyword, branch, found, inside, same, parent⟩ := planted.exists_branch split
  have hangs : document.parent? number = some branch.parent :=
    (parent?_eq_some_iff _ _ _).2 ⟨branch, inside, rfl⟩
  rw [List.append_nil] at parent
  rw [hangs, Spot.parentAmong?, found, Option.bind_some, parent]
  by_cases isFeature : keyword = .feature
  · rw [if_pos isFeature, isFeature, Spot.nearest?_feature]
    rfl
  · rw [if_neg isFeature]
    cases nearest : Spot.nearest? earlier.reverse keyword with
    | some holder => rfl
    | none =>
        rw [parent, nearest] at hangs
        have isTag : document.is number branch.node.kind.tag = true := by
          rw [is_of_mem_zipIdx inside, decide_eq_true_eq]
        have onlyFeature := feature_of_parent?_eq_zero forest isFile hangs isTag
        obtain ⟨kind, made, sameNode⟩ := Option.map_eq_some_iff.1 same
        obtain ⟨_, foundToo, makes⟩ := Spot.exists_keyword made
        rw [← sameNode] at onlyFeature
        rw [onlyFeature] at makes
        rw [found] at foundToo
        cases foundToo
        cases keyword <;> contradiction

/-- A cell hangs from a row that comes from its line. -/
theorem exists_row_of_is_cell {document : Document} (isFile : document.is 0 .file = true)
    {lines : List Line} {placed : List (Nat × Spot)}
    (planted : Planted [] [] lines 1 document.branches placed) {number : Nat}
    (isCell : document.is number .cell = true) :
    ∃ row spot, (row, spot) ∈ placed ∧ spot.kind? = some .row ∧
      document.parent? number = some row ∧ document.line? number = some spot.line.number := by
  have positive : number ≠ 0 := by
    intro same
    subst same
    cases tag_unique isFile isCell
  obtain ⟨parent, hangs⟩ := parent?_of_lt positive (lt_size_of_is isCell)
  obtain ⟨branch, inside, rfl⟩ := (parent?_eq_some_iff _ _ _).1 hangs
  rw [is_of_mem_zipIdx inside, decide_eq_true_eq] at isCell
  obtain ⟨spot, member, isRow, sameLine⟩ :=
    planted.exists_row (List.fst_mem_of_mem_zipIdx inside) isCell
  refine ⟨branch.parent, spot, member, isRow, hangs, ?_⟩
  rw [line?, node?_of_mem_zipIdx inside, Option.map_some, sameLine]

/-- The nodes of a document that was parsed are exactly those that the lines outside doc strings make,
in the order of the lines, each with the number and the text of its line, with the cells of its line,
and below the node of the nearest line before it that may hold it. -/
theorem parse_places_every_line {path : Path} {source : Text} {document : Document}
    (parsed : parse path source = .ok document) :
    ∃ placed,
      document.Places (Spot.ofLines [] (Line.outside none (Line.ofSource source))) placed := by
  obtain ⟨placed, planted⟩ := Above.Describes.root.exists_planted 1
    (Line.outside none (Line.ofSource source))
  rw [← branches_of_parse parsed] at planted
  obtain ⟨feature?, -, rfl⟩ := exists_ofFeature_of_parse parsed
  have forest := forest_ofFeature path feature?
  refine ⟨placed, ?_, planted.map_snd, ?_, ?_, ?_, ?_⟩
  · rw [filter_comesFromLine (uncrossed_of_forest forest), planted.map_fst]
  · intro number spot member
    obtain ⟨first, later, split⟩ := List.append_of_mem member
    obtain ⟨keyword, branch, -, inside, same, -⟩ := planted.exists_branch split
    rw [node?_of_mem_zipIdx inside, same]
  · intro number spot member
    rw [cells_eq_valuesBelow, planted.valuesBelow member]
  · intro earlier number spot later split
    exact parent?_eq_parentAmong? forest rfl planted split
  · intro number isCell
    exact exists_row_of_is_cell rfl planted isCell

/-- The examples in the doc string make no outline of the first scenario, and the table below the
second one is not yet one of examples. -/
theorem parse_places_every_line_in_rule :
    let path : Path := ⟨"a.feature".toList⟩
    let source := ("Feature: F\nRule: R\nScenario: S\n\"\"\"\nExamples:\n\"\"\"\nScenario: T <x>\n" ++
      "| step |\nExamples:\n| x |\n| 1 |\n").toList
    let document := ofFeature path (some ⟨1, "F".toList, [], [⟨2, "R".toList,
      [⟨3, "S".toList, .scenario⟩, ⟨7, "T <x>".toList,
        .outline [⟨9, [], [⟨10, ["x".toList]⟩, ⟨11, ["1".toList]⟩]⟩]⟩]⟩]⟩)
    parse path source = .ok document ∧ ∃ placed,
      document.Places (Spot.ofLines [] (Line.outside none (Line.ofSource source))) placed ∧
      placed.map (fun (number, spot) => (number, spot.line.number)) =
        [(1, 1), (2, 2), (3, 3), (4, 7), (5, 9), (6, 10), (8, 11)] := by
  intro path source document
  have parsed : parse path source = .ok document := by with_unfolding_all rfl
  obtain ⟨placed, places⟩ := parse_places_every_line parsed
  refine ⟨parsed, placed, places, ?_⟩
  rw [List.zip_of_prod places.numbers places.lines]
  decide +kernel

end Document

end FeatureLint
