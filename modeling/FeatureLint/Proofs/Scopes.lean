import FeatureLint.Proofs.Reports
import FeatureLint.Proofs.Sections
import FeatureLint.Proofs.Shape

/-!
This file reads scopes and names off the lines of a file. The rule of a scenario or outline is the last
rule before it, and the names of an outline come from the rows of the tables in its body. Main
statement: in every document that was parsed, the linter finds exactly these scopes and names, and the
rows of each table are as long as its header.
-/

namespace FeatureLint

/-- The first row of a table is its header, and every other row gives one name. -/
def namesOfRows (template : Text) : List (List Text) → List Text
  | [] => []
  | header :: rows => rows.map (interpolate template header)

namespace Line

/-- This is the text of the last rule before the line with the given number. -/
def ruleBefore? (number : Nat) (lines : List Line) : Option Text :=
  lastRule? (lines.filter fun line => line.number < number)

/-- This is the body of the block on the line with the given number. -/
def bodyAfter (number : Nat) (lines : List Line) : List Line :=
  body (lines.filter fun line => number < line.number)

/-- The lines with smaller numbers are the lines before. -/
theorem filter_lt_number {before after : List Line} {line : Line}
    (increasing : (before ++ line :: after).Pairwise fun first second => first.number < second.number) :
    (before ++ line :: after).filter (fun other => other.number < line.number) = before := by
  obtain ⟨-, fromLine, across⟩ := List.pairwise_append.1 increasing
  have kept : before.filter (fun other => other.number < line.number) = before := by
    apply List.filter_eq_self.2
    intro other member
    exact decide_eq_true (across other member line List.mem_cons_self)
  have dropped : (line :: after).filter (fun other => other.number < line.number) = [] := by
    rw [List.filter_eq_nil_iff, List.forall_mem_cons]
    refine ⟨by simp, fun other member => ?_⟩
    have bound := (List.pairwise_cons.1 fromLine).1 other member
    simp only [decide_eq_true_eq]
    omega
  rw [List.filter_append, kept, dropped, List.append_nil]

/-- The lines with greater numbers are the lines after. -/
theorem filter_number_lt {before after : List Line} {line : Line}
    (increasing : (before ++ line :: after).Pairwise fun first second => first.number < second.number) :
    (before ++ line :: after).filter (fun other => line.number < other.number) = after := by
  obtain ⟨-, fromLine, across⟩ := List.pairwise_append.1 increasing
  have dropped : before.filter (fun other => line.number < other.number) = [] := by
    rw [List.filter_eq_nil_iff]
    intro other member
    have bound := across other member line List.mem_cons_self
    simp only [decide_eq_true_eq]
    omega
  have kept : after.filter (fun other => line.number < other.number) = after := by
    apply List.filter_eq_self.2
    intro other member
    exact decide_eq_true ((List.pairwise_cons.1 fromLine).1 other member)
  rw [List.filter_append, dropped, List.filter_cons_of_neg (by simp), kept, List.nil_append]

end Line

/-- Where the lines are numbered in order, a block finds its rule and its tables by its own number. -/
theorem Block.StandsIn.find {block : Block} {rule? : Option Text} {lines : List Line}
    (stands : block.StandsIn rule? lines)
    (increasing : lines.Pairwise fun first second => first.number < second.number) :
    Line.ruleBefore? block.line lines = rule? ∧
      Line.tables (Line.bodyAfter block.line lines) = block.tableCells := by
  obtain ⟨before, line, after, rfl, number, rule, tables⟩ := stands
  rw [← number, Line.ruleBefore?, Line.bodyAfter, Line.filter_lt_number increasing,
    Line.filter_number_lt increasing]
  exact ⟨rule, tables⟩

/-- In a proper block, the rows of each table are as long as its header. -/
theorem Block.Proper.aligned {block : Block} (proper : block.Proper) {header : List Text}
    {rows : List (List Text)} (member : header :: rows ∈ block.tableCells) {row : List Text}
    (inRows : row ∈ rows) : row.length = header.length := by
  obtain ⟨table, inside, cells⟩ := List.mem_map.1 member
  obtain ⟨width, equal⟩ := (proper.tables table inside).aligned
  have lengths : ∀ line ∈ header :: rows, line.length = width := by
    rw [← cells]
    exact List.forall_mem_map.2 equal
  rw [lengths row (List.mem_cons_of_mem _ inRows), lengths header List.mem_cons_self]

theorem Feature.Proper.block {feature : Feature} (proper : feature.Proper)
    {entry : Option Text × Block} (member : entry ∈ feature.scopedBlocks) : entry.2.Proper := by
  rcases List.mem_append.1 member with inBlocks | inRules
  · obtain ⟨block, inside, rfl⟩ := List.mem_map.1 inBlocks
    exact proper.blocks block inside
  · obtain ⟨rule, isRule, inRule⟩ := List.mem_flatMap.1 inRules
    obtain ⟨block, inside, rfl⟩ := List.mem_map.1 inRule
    exact (proper.rules rule isRule).blocks block inside

namespace Document

theorem namesOfTable_eq (document : Document) (template : Text) (table : Nat) :
    document.namesOfTable template table =
      namesOfRows template ((document.childrenWith table .row).map document.cells) := by
  unfold namesOfTable
  cases document.childrenWith table .row with
  | nil => rfl
  | cons header rows =>
      rw [List.map_cons, namesOfRows, List.map_map]
      rfl

section Layouts

variable {document : Document} {parent number : Nat}

/-- What is read off the children of a node is what is read off the items below it. -/
theorem Holds.map_childrenWith {Item Value : Type} {layout : Nat → Item → List Branch} {node : Node}
    (each : ∀ next item, Sprouts number next (layout next item)) {items : List Item}
    (holds : document.Holds number (⟨parent, node⟩ :: layoutAll layout (number + 1) items)) {tag : Tag}
    {ofChild : Nat → Value} {ofItem : Item → Value}
    (read : ∀ child item, document.Holds child (layout child item) →
      document.is child tag = true ∧ ofChild child = ofItem item) :
    (document.childrenWith number tag).map ofChild = items.map ofItem := by
  have found {child : Nat} {item : Item}
      (member : (child, item) ∈ numbered layout (number + 1) items) :=
    read child item (holds.below.item each (Nat.lt_succ_self number) member)
  have tagged : document.childrenWith number tag = document.children number := by
    refine List.filter_eq_self.2 fun child member => ?_
    obtain ⟨item, -, here⟩ := holds.exists_item each member
    exact (read child item here).1
  calc
    _ = (numbered layout (number + 1) items).map fun entry => ofChild entry.1 := by
      rw [tagged, holds.children_under each, List.map_map]
      rfl
    _ = (numbered layout (number + 1) items).map fun entry => ofItem entry.2 :=
      List.map_congr_left fun entry member => (found member).2
    _ = items.map ofItem := by
      nth_rewrite 2 [← map_snd_numbered layout (number + 1) items]
      rw [List.map_map]
      rfl

/-- A table gives the names of its rows. -/
theorem Holds.namesOfTable {examples : Examples}
    (holds : document.Holds number (examples.layout parent number)) (template : Text) :
    document.namesOfTable template number = namesOfRows template (examples.rows.map Row.cells) := by
  rw [namesOfTable_eq]
  congr 1
  exact holds.map_childrenWith (Sprouts.row number) fun _ _ here => ⟨here.is rfl, here.cells⟩

/-- An outline gives the names of its tables. -/
theorem Holds.namesOf {block : Block} (holds : document.Holds number (block.layout parent number))
    {template : Text} (isOutline : document.kind? number = some (.outline template)) :
    document.namesOf number = block.tableCells.flatMap (namesOfRows template) := by
  have names := holds.map_childrenWith (Sprouts.examples number) fun _ _ here =>
    ⟨here.is rfl, here.namesOfTable template⟩
  unfold Document.namesOf
  rw [isOutline]
  change (document.childrenWith number .examples).flatMap (document.namesOfTable template) = _
  rw [List.flatMap_def, names, Block.tableCells, List.flatMap_map, List.flatMap_def]

/-- What hangs from a feature is one of its blocks or one of its rules. -/
theorem Holds.exists_block_or_rule {feature : Feature}
    (holds : document.Holds number (feature.layout parent number)) {child : Nat}
    (member : child ∈ document.children number) :
    (∃ block ∈ feature.blocks, document.Holds child (block.layout number child)) ∨
      ∃ rule ∈ feature.rules, document.Holds child (rule.layout number child) := by
  have blocksHold : document.Holds (number + 1)
      (layoutAll (Block.layout number) (number + 1) feature.blocks) := by
    apply holds.below.left
    intro branch later
    have bound := Sprouts.layoutAll_parent (Sprouts.rule number) _ feature.rules later
    omega
  have children := holds.children
  rw [Branch.hanging_append, Sprouts.hanging_layoutAll (Sprouts.block number) (by omega),
    Sprouts.hanging_layoutAll (Sprouts.rule number) (by omega)] at children
  rw [children] at member
  rcases List.mem_append.1 member with inBlocks | inRules
  · obtain ⟨⟨_, block⟩, inside, rfl⟩ := List.mem_map.1 inBlocks
    left
    exact ⟨block, mem_of_mem_numbered inside,
      blocksHold.item (Sprouts.block number) (by omega) inside⟩
  · obtain ⟨⟨_, rule⟩, inside, rfl⟩ := List.mem_map.1 inRules
    right
    exact ⟨rule, mem_of_mem_numbered inside,
      holds.below.right.item (Sprouts.rule number) (by omega) inside⟩

end Layouts

section Files

variable {path : Path} {feature? : Option Feature} {number : Nat}

/-- Everything but the root has the file above it. -/
theorem fileAbove?_ofFeature (positive : number ≠ 0) (known : number < (ofFeature path feature?).size) :
    (ofFeature path feature?).fileAbove? number = some path := by
  have rootAbove := (List.mem_cons.1 (root_mem_lineage known)).resolve_left positive.symm
  have found : ((ofFeature path feature?).ancestor? number .file).isSome = true :=
    List.find?_isSome.2 ⟨0, rootAbove, rfl⟩
  obtain ⟨file, above⟩ := Option.isSome_iff_exists.1 found
  have isRoot := eq_zero_of_is_file (forest_ofFeature path feature?) rfl (is_of_ancestor? above)
  subst isRoot
  rw [fileAbove?, above]
  rfl

/-- A node that is no file hangs from one that may hold it. -/
theorem exists_parent_ofFeature {tag : Tag}
    (isTag : (ofFeature path feature?).is number tag = true) (other : tag ≠ .file) :
    number ≠ 0 ∧ ∃ parent holder, (ofFeature path feature?).parent? number = some parent ∧
      (ofFeature path feature?).is parent holder = true ∧ holder.holds tag = true := by
  have positive : number ≠ 0 := by
    intro same
    subst same
    exact other (tag_unique isTag rfl)
  obtain ⟨parent, below⟩ := parent?_of_lt positive (lt_size_of_is isTag)
  obtain ⟨holder, isHolder, held⟩ :=
    exists_holder_of_forest (forest_ofFeature path feature?) rfl below isTag
  exact ⟨positive, parent, holder, below, isHolder, held⟩

theorem exists_feature_of_is (isFeature : (ofFeature path feature?).is number .feature = true) :
    ∃ feature ∈ feature?, (ofFeature path feature?).Holds number (feature.layout 0 number) := by
  obtain ⟨-, parent, holder, below, isHolder, held⟩ := exists_parent_ofFeature isFeature nofun
  cases holder <;> cases held
  have isRoot := eq_zero_of_is_file (forest_ofFeature path feature?) rfl isHolder
  subst isRoot
  have children : (ofFeature path feature?).children 0 =
      (numbered (Feature.layout 0) 1 feature?.toList).map Prod.fst :=
    Sprouts.hanging_layoutAll (Sprouts.feature 0) Nat.zero_lt_one _
  have member := (mem_children_iff _ 0 number).2 below
  rw [children] at member
  obtain ⟨⟨_, feature⟩, inside, rfl⟩ := List.mem_map.1 member
  refine ⟨feature, Option.mem_toList.1 (mem_of_mem_numbered inside), ?_⟩
  exact (Holds.all (ofFeature path feature?)).item (Sprouts.feature 0) Nat.zero_lt_one inside

theorem exists_rule_of_is (isRule : (ofFeature path feature?).is number .rule = true) :
    ∃ feature ∈ feature?, ∃ rule ∈ feature.rules, ∃ parent,
      (ofFeature path feature?).Holds number (rule.layout parent number) := by
  obtain ⟨-, parent, holder, below, isHolder, held⟩ := exists_parent_ofFeature isRule nofun
  cases holder <;> cases held
  obtain ⟨feature, isFeature, holds⟩ := exists_feature_of_is isHolder
  rcases holds.exists_block_or_rule ((mem_children_iff _ parent number).2 below) with
    ⟨block, -, here⟩ | ⟨rule, member, here⟩
  · rw [here.isBlock.2] at isRule
    contradiction
  · exact ⟨feature, isFeature, rule, member, parent, here⟩

/-- Every scenario and outline is a block of the feature and has the scope of its rule. -/
theorem exists_block_of_isNamed (named : (ofFeature path feature?).isNamed number = true) :
    ∃ feature ∈ feature?, ∃ entry ∈ feature.scopedBlocks, ∃ parent,
      (ofFeature path feature?).Holds number (entry.2.layout parent number) ∧
        (ofFeature path feature?).scopeOf? number = some ⟨path, entry.1⟩ := by
  obtain ⟨tag, isTag, isBlock⟩ : ∃ tag, (ofFeature path feature?).is number tag = true ∧
      (tag = .scenario ∨ tag = .outline) := by
    rcases Bool.or_eq_true_iff.1 named with isScenario | isOutline
    · exact ⟨.scenario, isScenario, Or.inl rfl⟩
    · exact ⟨.outline, isOutline, Or.inr rfl⟩
  have other : tag ≠ .file := by rcases isBlock with rfl | rfl <;> decide
  obtain ⟨positive, parent, holder, below, isHolder, held⟩ := exists_parent_ofFeature isTag other
  have member := (mem_children_iff _ parent number).2 below
  cases holder with
  | feature =>
      obtain ⟨feature, isFeature, holds⟩ := exists_feature_of_is isHolder
      have outside : ((ofFeature path feature?).ancestor? number .rule).isNone = true := by
        rw [ancestor?_rule_eq_none (forest_ofFeature path feature?) rfl below isHolder]
        rfl
      rcases holds.exists_block_or_rule member with ⟨block, inside, here⟩ | ⟨rule, -, here⟩
      · refine ⟨feature, isFeature, (none, block), ?_, parent, here, ?_⟩
        · exact List.mem_append_left _ (List.mem_map_of_mem inside)
        · rw [scopeOf?_of_outside outside, fileAbove?_ofFeature positive (lt_size_of_is isTag)]
          rfl
      · rw [not_isNamed_of_is_rule here.isRule.2] at named
        contradiction
  | rule =>
      obtain ⟨feature, isFeature, rule, inRules, holder, holds⟩ := exists_rule_of_is isHolder
      obtain ⟨block, inside, here⟩ := holds.exists_item (Sprouts.block parent) member
      have isRule : (ofFeature path feature?).kind? parent = some (.rule rule.name) := by
        rw [kind?, holds.node?]
        rfl
      have inFile := fileAbove?_ofFeature (exists_parent_ofFeature isHolder (by decide)).1
        (lt_size_of_is isHolder)
      refine ⟨feature, isFeature, (some rule.name, block), ?_, parent, here, ?_⟩
      · exact List.mem_append_right _ (List.mem_flatMap.2 ⟨rule, inRules, List.mem_map_of_mem inside⟩)
      · rw [scopeOf?_of_rule below isRule, inFile]
        rfl
  | _ => rcases isBlock with rfl | rfl <;> cases held

end Files

/-- The scope and the names of a node are read off the lines of its file when its rule is the last one
before its line, its names fill the template with the rows of the tables in its body, and no row is
longer or shorter than the header of its table. -/
structure ReadsOff (document : Document) (number : Nat) (path : Path) (lines : List Line)
    (line : Nat) : Prop where
  onLine : document.line? number = some line
  scope : document.scopeOf? number = some ⟨path, Line.ruleBefore? line lines⟩
  names : ∀ template, document.kind? number = some (.outline template) →
    document.namesOf number =
      (Line.tables (Line.bodyAfter line lines)).flatMap (namesOfRows template)
  aligned : ∀ header rows, header :: rows ∈ Line.tables (Line.bodyAfter line lines) →
    ∀ row ∈ rows, row.length = header.length

theorem exists_readsOff {path : Path} {source : Text} {document : Document}
    (parsed : parse path source = .ok document) {number : Nat}
    (named : document.isNamed number = true) :
    ∃ line, document.ReadsOff number path (Line.outside none (Line.ofSource source)) line := by
  obtain ⟨feature?, read, rfl⟩ := exists_ofFeature_of_parse parsed
  have proper := Feature.proper_ofLines read fun _ => Line.text_of_mem_ofSource
  obtain ⟨feature, isFeature, entry, member, parent, holds, scope⟩ := exists_block_of_isNamed named
  cases isFeature
  have increasing := (Line.pairwise_number_ofSource source).sublist (Line.outside_sublist none _)
  obtain ⟨rule, tables⟩ := (Feature.standsIn_of_ofLines read
    (fun _ => Line.keyword?_of_isBlank) entry member).find increasing
  refine ⟨entry.2.line, ?_, ?_, ?_, ?_⟩
  · rw [line?, holds.node?]
    rfl
  · rw [scope, rule]
  · intro template isOutline
    rw [holds.namesOf isOutline, tables]
  · intro header rows inTables row inRows
    rw [tables] at inTables
    exact ((proper feature rfl).block member).aligned inTables inRows

/-- The linter finds the scope and the names of every scenario and outline where they stand in the
source, and two of them share a scope exactly when their files are alike and the same rule, or none,
comes last before them. -/
theorem scope_and_names_of_parse {path : Path} {source : Text} {document : Document}
    (parsed : parse path source = .ok document) {number : Nat}
    (named : document.isNamed number = true) :
    ∃ line, document.ReadsOff number path (Line.outside none (Line.ofSource source)) line ∧
      ∀ otherPath otherSource other, parse otherPath otherSource = .ok other →
        ∀ otherNumber, other.isNamed otherNumber = true →
          ∃ otherLine, other.ReadsOff otherNumber otherPath
              (Line.outside none (Line.ofSource otherSource)) otherLine ∧
            ∀ scope ∈ document.scopeOf? number, ∀ otherScope ∈ other.scopeOf? otherNumber,
              (scope.alike otherScope = true ↔ path.components = otherPath.components ∧
                Line.ruleBefore? line (Line.outside none (Line.ofSource source)) =
                  Line.ruleBefore? otherLine (Line.outside none (Line.ofSource otherSource))) := by
  obtain ⟨line, readsOff⟩ := exists_readsOff parsed named
  refine ⟨line, readsOff, ?_⟩
  intro otherPath otherSource other otherParsed otherNumber otherNamed
  obtain ⟨otherLine, otherReadsOff⟩ := exists_readsOff otherParsed otherNamed
  refine ⟨otherLine, otherReadsOff, ?_⟩
  intro scope inScope otherScope inOtherScope
  cases readsOff.scope.symm.trans inScope
  cases otherReadsOff.scope.symm.trans inOtherScope
  exact Scope.alike_iff _ _

/-- The rule named `feature` has a scope of its own, though its text is that of the file scope. The rule
in the doc string does not count, and each table has its own header. -/
theorem scope_and_names_of_parse_with_rule_named_feature :
    let path : Path := ⟨"a".toList⟩
    let source := ("Feature: F\nScenario: S\n```\nRule: R\n```\nRule: feature\nScenario: <x>-<y>\n" ++
      "Examples:\n| x | y |\n| 1 | 2 |\nExamples:\n| y | x |\n| 3 | 4 |\n").toList
    let feature : Feature := ⟨1, "F".toList, [⟨2, "S".toList, .scenario⟩],
      [⟨6, "feature".toList, [⟨7, "<x>-<y>".toList, .outline [
        ⟨8, [], [⟨9, ["x".toList, "y".toList]⟩, ⟨10, ["1".toList, "2".toList]⟩]⟩,
        ⟨11, [], [⟨12, ["y".toList, "x".toList]⟩, ⟨13, ["3".toList, "4".toList]⟩]⟩]⟩]⟩]⟩
    let document := ofFeature path (some feature)
    let lines := Line.outside none (Line.ofSource source)
    parse path source = .ok document ∧
      (Line.tables (Line.bodyAfter 7 lines)).flatMap (namesOfRows "<x>-<y>".toList) =
        ["1-2".toList, "4-3".toList] ∧
      Line.ruleBefore? 7 lines = some "feature".toList ∧ Line.ruleBefore? 2 lines = none ∧
      ∃ scope otherScope, document.scopeOf? 4 = some scope ∧ document.scopeOf? 2 = some otherScope ∧
        scope.text = otherScope.text ∧ ¬ scope.alike otherScope = true := by
  intro path source feature document lines
  have read : Feature.ofLines (Line.ofSource source) = .ok (some feature) := by decide +kernel
  have parsed : parse path source = .ok document := by
    rw [parse, read]
    rfl
  have named : document.isNamed 4 = true := rfl
  obtain ⟨line, readsOff, shares⟩ := scope_and_names_of_parse parsed named
  obtain ⟨otherLine, otherReadsOff, shared⟩ := shares path source document parsed 2 rfl
  obtain rfl : 7 = line := Option.some.inj readsOff.onLine
  obtain rfl : 2 = otherLine := Option.some.inj otherReadsOff.onLine
  have scope : document.scopeOf? 4 = some ⟨path, some "feature".toList⟩ := by decide +kernel
  have otherScope : document.scopeOf? 2 = some ⟨path, none⟩ := by decide +kernel
  have names : document.namesOf 4 = ["1-2".toList, "4-3".toList] := by decide +kernel
  have rule := congrArg Scope.rule? (Option.some.inj (readsOff.scope.symm.trans scope))
  have noRule := congrArg Scope.rule? (Option.some.inj (otherReadsOff.scope.symm.trans otherScope))
  refine ⟨parsed, ?_, rule, noRule, _, _, scope, otherScope, rfl, ?_⟩
  · rw [← readsOff.names _ rfl, names]
  · rw [shared _ scope _ otherScope]
    rintro ⟨-, same⟩
    cases rule.symm.trans (same.trans noRule)

end Document

end FeatureLint
