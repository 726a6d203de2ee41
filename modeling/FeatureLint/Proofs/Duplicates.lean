import FeatureLint.Proofs.Layout
import FeatureLint.Proofs.Pass

/-!
This file shows that a pass of the default runner finds duplicates soundly and completely. A scenario
or outline counts when it belongs to a file and is either outside of all rules or right below a rule.
Main statements: every scenario and outline of a parsed document counts, a pass records the names of
each node that counts exactly once and nothing else, and it reports nothing exactly when no name was
recorded twice in one scope, whatever the order of the documents.
-/

namespace FeatureLint

namespace Document

/-- A scenario or outline is named by the linter. -/
def isNamed (document : Document) (number : Nat) : Bool :=
  document.is number .scenario || document.is number .outline

/-- A rule is not named. -/
theorem not_isNamed_of_is_rule {document : Document} {number : Nat}
    (isRule : document.is number .rule = true) : document.isNamed number = false := by
  refine Bool.eq_false_iff.2 fun named => ?_
  rcases Bool.or_eq_true_iff.1 named with isScenario | isOutline
  · cases tag_unique isRule isScenario
  · cases tag_unique isRule isOutline

def isRightBelowRule (document : Document) (number : Nat) : Bool :=
  (document.parent? number).any fun parent => document.is parent .rule

/-- A scenario or outline is checked when it is outside of all rules or right below a rule. -/
def isChecked (document : Document) (number : Nat) : Bool :=
  document.isNamed number &&
    ((document.ancestor? number .rule).isNone || document.isRightBelowRule number)

/-- A scenario or outline counts when it is checked and belongs to a file. -/
def isCounted (document : Document) (number : Nat) : Bool :=
  document.isChecked number && (document.ancestor? number .file).isSome

/-- A node has a scope exactly when it belongs to a file. -/
theorem scopeOf?_isSome_iff (document : Document) (number : Nat) :
    (document.scopeOf? number).isSome = (document.ancestor? number .file).isSome := by
  unfold scopeOf?
  cases found : document.ancestor? number .file with
  | none => rfl
  | some file =>
      have isFile := is_of_ancestor? found
      obtain ⟨kind, foundKind, sameTag⟩ := (is_iff document file .file).1 isFile
      cases kind <;> first | contradiction | simp [foundKind, Kind.path?]

/-- In a document whose branches form a forest below a file, only the root is a file. -/
theorem eq_zero_of_is_file {document : Document} (forest : Forest .file 0 1 document.branches)
    (rootIsFile : document.is 0 .file = true) {number : Nat}
    (isFile : document.is number .file = true) : number = 0 := by
  refine Decidable.byContradiction fun positive => ?_
  obtain ⟨parent, found⟩ := parent?_of_lt positive (lt_size_of_is isFile)
  obtain ⟨holder, -, held⟩ := exists_holder_of_forest forest rootIsFile found isFile
  cases holder <;> cases held

/-- What hangs from a feature of such a document is outside of all rules. -/
theorem ancestor?_rule_eq_none {document : Document} (forest : Forest .file 0 1 document.branches)
    (rootIsFile : document.is 0 .file = true) {number feature : Nat}
    (below : document.parent? number = some feature)
    (isFeature : document.is feature .feature = true) :
    document.ancestor? number .rule = none := by
  have notRule : ∀ {other tag}, document.is other tag = true → tag ≠ .rule →
      document.is other .rule = false := by
    intro other tag isTag different
    exact Bool.eq_false_iff.2 fun isRule => different (tag_unique isTag isRule)
  have positive : feature ≠ 0 := by
    intro same
    subst same
    cases tag_unique rootIsFile isFeature
  obtain ⟨parent, found⟩ := parent?_of_lt positive (lt_size_of_is isFeature)
  obtain ⟨holder, isHolder, held⟩ := exists_holder_of_forest forest rootIsFile found isFeature
  have isFile : holder = .file := by
    cases holder <;> first | rfl | cases held
  subst isFile
  obtain rfl := eq_zero_of_is_file forest rootIsFile isHolder
  rw [ancestor?, ancestors_of_parent? below, ancestors_of_parent? found,
    ancestors_of_parent?_eq_none rfl]
  simp [notRule isFeature, notRule rootIsFile]

/-- A named node of such a document counts, since it hangs from the feature or from a rule. -/
theorem isCounted_of_forest {document : Document} (forest : Forest .file 0 1 document.branches)
    (rootIsFile : document.is 0 .file = true) {number : Nat}
    (named : document.isNamed number = true) : document.isCounted number = true := by
  obtain ⟨tag, isTag, isBlock⟩ : ∃ tag, document.is number tag = true ∧
      (tag = .scenario ∨ tag = .outline) := by
    rcases Bool.or_eq_true_iff.1 named with isScenario | isOutline
    · exact ⟨.scenario, isScenario, Or.inl rfl⟩
    · exact ⟨.outline, isOutline, Or.inr rfl⟩
  have known := lt_size_of_is isTag
  have positive : number ≠ 0 := by
    intro same
    subst same
    rcases isBlock with rfl | rfl <;> cases tag_unique rootIsFile isTag
  obtain ⟨parent, below⟩ := parent?_of_lt positive known
  obtain ⟨holder, isHolder, held⟩ := exists_holder_of_forest forest rootIsFile below isTag
  have inFile : (document.ancestor? number .file).isSome = true := by
    have rootAbove := (List.mem_cons.1 (root_mem_lineage known)).resolve_left positive.symm
    exact List.find?_isSome.2 ⟨0, rootAbove, rootIsFile⟩
  have placed : (document.ancestor? number .rule).isNone = true ∨
      document.isRightBelowRule number = true := by
    cases holder with
    | feature =>
        left
        rw [ancestor?_rule_eq_none forest rootIsFile below isHolder]
        rfl
    | rule =>
        right
        simp [isRightBelowRule, below, isHolder]
    | _ => rcases isBlock with rfl | rfl <;> cases held
  rw [isCounted, isChecked, named, inFile, Bool.true_and, Bool.and_true, Bool.or_eq_true]
  exact placed

end Document

namespace UniqueNames

/-- The children with a tag hang from the node and have the tag. -/
theorem mem_childrenWith_iff (document : Document) (number child : Nat) (tag : Tag) :
    child ∈ document.childrenWith number tag ↔
      document.parent? child = some number ∧ document.is child tag = true := by
  rw [Document.childrenWith, List.mem_filter, Document.mem_children_iff]

/-- At a rule its scenarios are checked and then its outlines. -/
theorem checkedAt_of_is_rule {document : Document} {visited : Nat}
    (isRule : document.is visited .rule = true) :
    checkedAt document visited =
      document.childrenWith visited .scenario ++ document.childrenWith visited .outline :=
  if_pos isRule

/-- Elsewhere a named node outside of all rules is checked alone. -/
theorem checkedAt_of_not_is_rule {document : Document} {visited : Nat}
    (notRule : document.is visited .rule = false) :
    checkedAt document visited =
      if document.isNamed visited && (document.ancestor? visited .rule).isNone then [visited]
      else [] := by
  unfold checkedAt
  rw [notRule]
  change (if document.isNamed visited = true then _ else []) = _
  cases document.isNamed visited <;> cases document.ancestor? visited .rule <;> rfl

/-- A node is checked when it is visited itself or when the rule right above it is visited. -/
theorem mem_checkedAt_iff (document : Document) (visited number : Nat) :
    number ∈ checkedAt document visited ↔
      document.isNamed number = true ∧
        ((visited = number ∧ (document.ancestor? number .rule).isNone = true) ∨
          (document.parent? number = some visited ∧ document.is visited .rule = true)) := by
  cases isRule : document.is visited .rule with
  | true =>
      rw [checkedAt_of_is_rule isRule, List.mem_append, mem_childrenWith_iff, mem_childrenWith_iff,
        ← and_or_left, ← Bool.or_eq_true]
      constructor
      · intro given
        obtain ⟨below, named⟩ := given
        exact ⟨named, Or.inr ⟨below, rfl⟩⟩
      · intro given
        obtain ⟨named, ⟨rfl, -⟩ | ⟨below, -⟩⟩ := given
        · simp [Document.not_isNamed_of_is_rule isRule] at named
        · exact ⟨below, named⟩
  | false =>
      rw [checkedAt_of_not_is_rule isRule, List.mem_ite_nil_right, Bool.and_eq_true,
        List.mem_singleton]
      constructor
      · intro given
        obtain ⟨⟨named, outside⟩, rfl⟩ := given
        exact ⟨named, Or.inl ⟨rfl, outside⟩⟩
      · intro given
        obtain ⟨named, ⟨rfl, outside⟩ | ⟨-, impossible⟩⟩ := given
        · exact ⟨⟨named, outside⟩, rfl⟩
        · cases impossible

theorem nodup_childrenWith (document : Document) (number : Nat) (tag : Tag) :
    (document.childrenWith number tag).Nodup :=
  ((document.pairwise_children number).imp Nat.ne_of_lt).filter _

/-- No node is checked twice at one visit. -/
theorem nodup_checkedAt (document : Document) (visited : Nat) :
    (checkedAt document visited).Nodup := by
  cases isRule : document.is visited .rule with
  | true =>
      rw [checkedAt_of_is_rule isRule, List.nodup_append]
      refine ⟨nodup_childrenWith _ _ _, nodup_childrenWith _ _ _, ?_⟩
      intro first firstMember second secondMember same
      subst same
      have isScenario := ((mem_childrenWith_iff document visited first .scenario).1 firstMember).2
      have isOutline := ((mem_childrenWith_iff document visited first .outline).1 secondMember).2
      cases Document.tag_unique isScenario isOutline
  | false =>
      rw [checkedAt_of_not_is_rule isRule]
      split <;> simp

/-- No node is checked at two visits. -/
theorem visited_unique {document : Document} {first second number : Nat}
    (atFirst : number ∈ checkedAt document first) (atSecond : number ∈ checkedAt document second) :
    first = second := by
  obtain ⟨-, firstCase⟩ := (mem_checkedAt_iff document first number).1 atFirst
  obtain ⟨-, secondCase⟩ := (mem_checkedAt_iff document second number).1 atSecond
  -- Outside of all rules the node itself is visited, and below a rule only the rule right above.
  have apart : ∀ {visited}, document.parent? number = some visited →
      document.is visited .rule = true → (document.ancestor? number .rule).isNone ≠ true := by
    intro visited below isRule outside
    have inside := Document.ancestor?_isSome_of_parent? below isRule
    rw [Option.isNone_iff_eq_none] at outside
    simp [outside] at inside
  rcases firstCase with ⟨rfl, outside⟩ | ⟨below, isRule⟩
  · rcases secondCase with ⟨rfl, -⟩ | ⟨below, isRule⟩
    · rfl
    · exact absurd outside (apart below isRule)
  · rcases secondCase with ⟨rfl, outside⟩ | ⟨belowToo, -⟩
    · exact absurd outside (apart below isRule)
    · rw [below] at belowToo
      cases belowToo
      rfl

/-- The visits of all nodes check each node that is to be checked exactly once. -/
theorem flatMap_checkedAt_perm (document : Document) :
    ((List.range document.size).flatMap (checkedAt document)).Perm
      ((List.range document.size).filter document.isChecked) := by
  have nodup : ((List.range document.size).flatMap (checkedAt document)).Nodup := by
    rw [List.Nodup, List.pairwise_flatMap]
    refine ⟨fun visited _ => nodup_checkedAt document visited, ?_⟩
    refine List.pairwise_lt_range.imp ?_
    intro first second smaller number atFirst other atSecond same
    subst same
    have same := visited_unique atFirst atSecond
    omega
  rw [List.perm_ext_iff_of_nodup nodup (List.nodup_range.filter _)]
  intro number
  simp only [List.mem_flatMap, List.mem_filter, List.mem_range, mem_checkedAt_iff,
    Document.isChecked, Bool.and_eq_true, Bool.or_eq_true]
  constructor
  · intro given
    obtain ⟨visited, known, named, ⟨rfl, outside⟩ | ⟨below, isRule⟩⟩ := given
    · exact ⟨known, named, Or.inl outside⟩
    · exact ⟨Document.lt_size_of_parent? below, named,
        Or.inr (by simp [Document.isRightBelowRule, below, isRule])⟩
  · intro given
    obtain ⟨known, named, outside | rightBelow⟩ := given
    · exact ⟨number, known, named, Or.inl ⟨rfl, outside⟩⟩
    · obtain ⟨rule, below, isRule⟩ := (Option.any_eq_true _ _).1 rightBelow
      exact ⟨rule, Nat.lt_trans (Document.lt_of_parent? below) known, named, Or.inr ⟨below, isRule⟩⟩

/-- Items without results can be left out. -/
theorem flatMap_filter_of_eq_nil {Item Result : Type} (keeps : Item → Bool)
    (results : Item → List Result) (items : List Item)
    (dropped : ∀ item, keeps item = false → results item = []) :
    (items.filter keeps).flatMap results = items.flatMap results := by
  induction items with
  | nil => rfl
  | cons item rest inductionHypothesis =>
      cases kept : keeps item with
      | true => rw [List.filter_cons_of_pos kept, List.flatMap_cons, List.flatMap_cons,
          inductionHypothesis]
      | false => rw [List.filter_cons_of_neg (by simp [kept]), List.flatMap_cons, dropped item kept,
          List.nil_append, inductionHypothesis]

/-- The mentions of a node have its names, its scope and its line. -/
theorem mentionsOf_of_scopeOf? {document : Document} {number line : Nat} {scope : Scope}
    (inScope : document.scopeOf? number = some scope) (onLine : document.line? number = some line) :
    mentionsOf document number = (document.namesOf number).map fun name => ⟨scope, name, line⟩ := by
  simp [mentionsOf, inScope, onLine]

/-- A node without a file has no mentions. -/
theorem mentionsOf_eq_nil {document : Document} {number : Nat}
    (missing : (document.ancestor? number .file).isSome = false) :
    mentionsOf document number = [] := by
  rw [← Document.scopeOf?_isSome_iff, Option.isSome_eq_false_iff, Option.isNone_iff_eq_none] at missing
  simp [mentionsOf, missing]

/-- The names of a node that counts are mentioned in its scope and on its line. -/
theorem exists_mentionsOf_of_isCounted {document : Document} {number : Nat}
    (counted : document.isCounted number = true) :
    ∃ scope line, document.scopeOf? number = some scope ∧ document.line? number = some line ∧
      mentionsOf document number =
        (document.namesOf number).map fun name => ⟨scope, name, line⟩ := by
  obtain ⟨checked, inFile⟩ := Bool.and_eq_true_iff.1 counted
  rw [← Document.scopeOf?_isSome_iff] at inFile
  obtain ⟨scope, inScope⟩ := Option.isSome_iff_exists.1 inFile
  have named := (Bool.and_eq_true_iff.1 checked).1
  obtain ⟨line, onLine⟩ : ∃ line, document.line? number = some line := by
    rcases Bool.or_eq_true_iff.1 named with isTag | isTag
    all_goals
      obtain ⟨kind, found, -⟩ := (Document.is_iff _ _ _).1 isTag
      obtain ⟨node, here, -⟩ := Option.map_eq_some_iff.1 found
      exact ⟨node.line, by simp [Document.line?, here]⟩
  exact ⟨scope, line, inScope, onLine, mentionsOf_of_scopeOf? inScope onLine⟩

/-- These are the mentions of all nodes that count, document by document and node by node. -/
def countedMentions (documents : List Document) : List Mention :=
  documents.flatMap fun document =>
    ((List.range document.size).filter document.isCounted).flatMap (mentionsOf document)

/-- A pass records the mentions of each node that counts exactly once and nothing else. -/
theorem mentionsIn_visits_perm (documents : List Document) :
    (mentionsIn (Runner.visits documents)).Perm (countedMentions documents) := by
  induction documents with
  | nil => exact List.Perm.refl _
  | cons document rest inductionHypothesis =>
      have split : mentionsIn (Runner.visits (document :: rest)) =
          document.walk.flatMap (mentionsAt document) ++ mentionsIn (Runner.visits rest) := by
        simp [mentionsIn, Runner.visits, List.flatMap_map]
      rw [split, countedMentions, List.flatMap_cons]
      refine List.Perm.append ?_ inductionHypothesis
      calc (document.walk.flatMap (mentionsAt document)).Perm
            ((List.range document.size).flatMap (mentionsAt document)) :=
            document.walk_perm_range.flatMap_right _
        _ = ((List.range document.size).flatMap (checkedAt document)).flatMap
              (mentionsOf document) := List.flatMap_assoc.symm
        List.Perm _ (((List.range document.size).filter document.isChecked).flatMap
              (mentionsOf document)) := (flatMap_checkedAt_perm document).flatMap_right _
        _ = ((List.range document.size).filter document.isCounted).flatMap
              (mentionsOf document) := by
            have files := flatMap_filter_of_eq_nil
              (fun number => (document.ancestor? number .file).isSome) (mentionsOf document)
              ((List.range document.size).filter document.isChecked) fun _ => mentionsOf_eq_nil
            rw [List.filter_filter] at files
            rw [← files]
            congr 2
            funext number
            rw [Document.isCounted, Bool.and_comm]

/-- A pass reports nothing exactly when the mentions that it records are apart. -/
theorem lint_default_eq_nil_iff (documents : List Document) :
    (Runner.default.lint documents).1 = [] ↔
      Mention.Apart (mentionsIn (Runner.visits documents)) := by
  have found := visitAll_holding_snd_eq_nil_iff (Runner.visits documents) List.Pairwise.nil
  rw [List.nil_append] at found
  exact found

theorem mentionsIn_visits_perm_of_perm {documents others : List Document}
    (reordered : documents.Perm others) :
    (mentionsIn (Runner.visits documents)).Perm (mentionsIn (Runner.visits others)) :=
  (reordered.flatMap_right _).flatMap_right _

/-- The duplicate check is sound and complete, and the order of the documents does not matter. -/
theorem pass_finds_exactly_clashes :
    (∀ path source document, Document.parse path source = .ok document →
      ∀ number, document.isNamed number = true → document.isCounted number = true) ∧
    (∀ document number, document.isCounted number = true →
      ∃ scope line, document.scopeOf? number = some scope ∧ document.line? number = some line ∧
        mentionsOf document number =
          (document.namesOf number).map fun name => ⟨scope, name, line⟩) ∧
    ∀ documents : List Document,
      (Runner.visitAll Runner.default.cleared.linters (Runner.visits documents)).1 =
        [holding (Ledger.ofMentions (mentionsIn (Runner.visits documents)))] ∧
      (mentionsIn (Runner.visits documents)).Perm (countedMentions documents) ∧
      ((Runner.default.lint documents).1 = [] ↔
        Mention.Apart (mentionsIn (Runner.visits documents))) ∧
      ∀ others, documents.Perm others →
        ((Runner.default.lint documents).1 = [] ↔ (Runner.default.lint others).1 = []) := by
  refine ⟨?_, ?_, fun documents => ⟨?_, ?_, ?_, ?_⟩⟩
  · intro path source document parsed number named
    obtain ⟨feature?, -, rfl⟩ := Document.exists_ofFeature_of_parse parsed
    exact Document.isCounted_of_forest (Document.forest_ofFeature path feature?) rfl named
  · exact fun document number => exists_mentionsOf_of_isCounted
  · rw [Runner.default_cleared, visitAll_holding_fst, List.nil_append]
  · exact mentionsIn_visits_perm documents
  · exact lint_default_eq_nil_iff documents
  · intro others reordered
    rw [lint_default_eq_nil_iff, lint_default_eq_nil_iff]
    have same := mentionsIn_visits_perm_of_perm reordered
    exact same.pairwise_iff fun apart clash => apart clash.symm

/-- Two scenarios share a name, one of them in a rule, and the file is given twice. -/
theorem pass_finds_exactly_clashes_twice :
    let path : Path := ⟨"a.feature".toList⟩
    let source := "Feature: F\nScenario: S\nRule: R\nScenario: S\n".toList
    let document := Document.ofFeature path (some ⟨1, "F".toList, [⟨2, "S".toList, .scenario⟩],
      [⟨3, "R".toList, [⟨4, "S".toList, .scenario⟩]⟩]⟩)
    Document.parse path source = .ok document ∧ document.isNamed 4 = true ∧
      document.isCounted 4 = true ∧ (Runner.default.lint [document]).1 = [] ∧
      (Runner.default.lint [document, document]).1 ≠ [] ∧
      ((Runner.default.lint [document, .ofFeature path none]).1 = [] ↔
        (Runner.default.lint [.ofFeature path none, document]).1 = []) := by
  intro path source document
  have parsed : Document.parse path source = .ok document := by with_unfolding_all rfl
  obtain ⟨parsedCounts, -, passes⟩ := pass_finds_exactly_clashes
  refine ⟨parsed, rfl, parsedCounts path source document parsed 4 rfl, ?_, ?_, ?_⟩
  · rw [(passes [document]).2.2.1]
    decide +kernel
  · rw [Ne, (passes [document, document]).2.2.1]
    decide +kernel
  · exact (passes _).2.2.2 _ (List.Perm.swap _ _ [])

end UniqueNames

end FeatureLint
