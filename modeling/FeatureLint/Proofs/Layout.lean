import FeatureLint.Feature.Parser
import FeatureLint.Proofs.Walk

/-!
This file describes the documents that come from feature files. A forest is a list of branches that
hang below one node, each tree of it followed by the next one, where every node is of a kind that its
parent may hold. Main statements: the layout of a feature is a forest, so its document is uncrossed,
is walked in the order of its numbers, and has below each node only what that node may hold.
-/

namespace FeatureLint

/-- This test asks whether a node of the first kind may hold a node of the second kind. -/
def Tag.holds : Tag → Tag → Bool
  | file, feature => true
  | feature, rule => true
  | feature, background | feature, scenario | feature, outline => true
  | rule, background | rule, scenario | rule, outline => true
  | outline, examples => true
  | examples, row => true
  | row, cell => true
  | _, _ => false

/-- Branches that are numbered from `next` on form a forest below a parent when each of them that
hangs from the parent is followed by the forest below itself. -/
inductive Forest : (holder : Tag) → (parent next : Nat) → List Branch → Prop where
  | nil {holder : Tag} {parent next : Nat} : Forest holder parent next []
  | cons {holder : Tag} {parent next : Nat} {node : Node} {below rest : List Branch} :
      holder.holds node.kind.tag = true →
      Forest node.kind.tag next (next + 1) below →
      Forest holder parent (next + 1 + below.length) rest →
      Forest holder parent next (⟨parent, node⟩ :: (below ++ rest))

namespace Forest

/-- A node with a forest below it is a tree. -/
theorem tree {holder : Tag} {parent next : Nat} {node : Node} {below : List Branch}
    (held : holder.holds node.kind.tag = true)
    (forest : Forest node.kind.tag next (next + 1) below) :
    Forest holder parent next (⟨parent, node⟩ :: below) := by
  have grown : Forest holder parent next (⟨parent, node⟩ :: (below ++ [])) := cons held forest nil
  rwa [List.append_nil] at grown

/-- Two forests below one parent make a forest. -/
theorem append {holder : Tag} {parent next : Nat} {first second : List Branch}
    (left : Forest holder parent next first)
    (right : Forest holder parent (next + first.length) second) :
    Forest holder parent next (first ++ second) := by
  induction left with
  | nil => exact right
  | @cons holder parent next node below rest held under _ _ inductionHypothesis =>
      have shifted : next + (⟨parent, node⟩ :: (below ++ rest)).length =
          next + 1 + below.length + rest.length := by
        simp only [List.length_cons, List.length_append]
        omega
      rw [List.cons_append, List.append_assoc]
      exact cons held under (inductionHypothesis (shifted ▸ right))

/-- Items side by side make a forest when each of them does. -/
theorem layoutAll {Item : Type} {layout : Nat → Item → List Branch} {holder : Tag} {parent : Nat}
    (each : ∀ next item, Forest holder parent next (layout next item))
    (next : Nat) (items : List Item) :
    Forest holder parent next (layoutAll layout next items) := by
  induction items generalizing next with
  | nil => exact nil
  | cons item rest inductionHypothesis =>
      exact (each next item).append (inductionHypothesis (next + (layout next item).length))

/-- A row is a tree in its table. -/
theorem layoutRow (parent number : Nat) (row : Row) :
    Forest .examples parent number (row.layout parent number) :=
  tree rfl (layoutAll (fun _ _ => tree rfl nil) _ row.cells)

/-- A table is a tree in its outline. -/
theorem layoutExamples (parent number : Nat) (examples : Examples) :
    Forest .outline parent number (examples.layout parent number) :=
  tree rfl (layoutAll (layoutRow number) _ examples.rows)

/-- A block is a tree wherever blocks of its form may be. -/
theorem layoutBlock {holder : Tag} (parent number : Nat) (block : Block)
    (held : holder.holds (block.form.kind block.name).tag = true) :
    Forest holder parent number (block.layout parent number) := by
  refine tree held ?_
  cases form : block.form with
  | background => exact nil
  | scenario => exact nil
  | outline tables => exact layoutAll (layoutExamples number) _ tables

/-- A rule is a tree in its feature. -/
theorem layoutRule (parent number : Nat) (rule : Rule) :
    Forest .feature parent number (rule.layout parent number) := by
  refine tree rfl (layoutAll (fun next block => layoutBlock number next block ?_) _ rule.blocks)
  cases block.form <;> rfl

/-- A feature is a tree in its file. -/
theorem layoutFeature (parent number : Nat) (feature : Feature) :
    Forest .file parent number (feature.layout parent number) := by
  refine tree rfl (append ?_ ?_)
  · refine layoutAll (fun next block => layoutBlock number next block ?_) _ feature.blocks
    cases block.form <;> rfl
  · exact layoutAll (layoutRule number) _ feature.rules

/-- A branch of a forest hangs from the parent of the forest or from a node of the forest. -/
theorem parent_eq_or_le {holder : Tag} {parent next : Nat} {branches : List Branch}
    (forest : Forest holder parent next branches) {branch : Branch} (member : branch ∈ branches) :
    branch.parent = parent ∨ next ≤ branch.parent := by
  induction forest with
  | nil => cases member
  | @cons holder parent next node below rest _ _ _ inBelow inRest =>
      rcases List.mem_cons.1 member with rfl | later
      · exact Or.inl rfl
      · rcases List.mem_append.1 later with under | beside
        · have bound := inBelow under
          omega
        · have bound := inRest beside
          omega

/-- No branch of a forest ends between an earlier node and the parent of that node. -/
theorem pairwise_uncrossed {holder : Tag} {parent next : Nat} {branches : List Branch}
    (forest : Forest holder parent next branches) (above : parent < next) :
    (branches.zipIdx next).Pairwise fun first second =>
      second.1.parent ≤ first.1.parent ∨ first.2 ≤ second.1.parent := by
  induction forest with
  | nil => exact List.Pairwise.nil
  | @cons holder parent next node below rest _ under beside inBelow inRest =>
      rw [List.zipIdx_cons, List.pairwise_cons, List.zipIdx_append, List.pairwise_append]
      refine ⟨?_, inBelow (Nat.lt_succ_self next), inRest (by omega), ?_⟩
      · intro entry member
        obtain ⟨branch, index⟩ := entry
        dsimp only
        rcases List.mem_append.1 member with inside | outside
        · have bound := under.parent_eq_or_le (List.fst_mem_of_mem_zipIdx inside)
          dsimp only at bound
          omega
        · have bound := beside.parent_eq_or_le (List.fst_mem_of_mem_zipIdx outside)
          dsimp only at bound
          omega
      · intro early firstMember late secondMember
        obtain ⟨first, firstIndex⟩ := early
        obtain ⟨second, secondIndex⟩ := late
        have firstBound := under.parent_eq_or_le (List.fst_mem_of_mem_zipIdx firstMember)
        have secondBound := beside.parent_eq_or_le (List.fst_mem_of_mem_zipIdx secondMember)
        have early := List.snd_lt_add_of_mem_zipIdx firstMember
        dsimp only at firstBound secondBound early ⊢
        omega

/-- Every node of a forest hangs from a node that may hold it. -/
theorem exists_holder {document : Document} {holder : Tag} {parent next : Nat}
    {branches : List Branch} (forest : Forest holder parent next branches)
    (before after : List Branch) (placed : document.branches = before ++ branches ++ after)
    (start : next = before.length + 1) (isHolder : document.is parent holder = true)
    {branch : Branch} (member : branch ∈ branches) :
    ∃ tag, document.is branch.parent tag = true ∧ tag.holds branch.node.kind.tag = true := by
  induction forest generalizing before after with
  | nil => cases member
  | @cons holder parent next node below rest held _ _ inBelow inRest =>
      rcases List.mem_cons.1 member with rfl | later
      · exact ⟨holder, isHolder, held⟩
      · rcases List.mem_append.1 later with under | beside
        · refine inBelow (before ++ [⟨parent, node⟩]) (rest ++ after) ?_ ?_ ?_ under
          · rw [placed]
            simp
          · simp [start]
          · simp [Document.is, Document.kind?, Document.node?, start, placed]
        · refine inRest (before ++ ⟨parent, node⟩ :: below) after ?_ ?_ isHolder beside
          · rw [placed]
            simp
          · simp [start]
            omega

end Forest

namespace Document

/-- A document whose branches form a forest below its root is uncrossed. -/
theorem uncrossed_of_forest {document : Document} {holder : Tag}
    (forest : Forest holder 0 1 document.branches) : document.Uncrossed := by
  intro first second firstParent secondParent firstFound secondFound earlier
  obtain ⟨firstBranch, firstMember, rfl⟩ := (document.parent?_eq_some_iff _ _).1 firstFound
  obtain ⟨secondBranch, secondMember, rfl⟩ := (document.parent?_eq_some_iff _ _).1 secondFound
  have apart := forest.pairwise_uncrossed Nat.zero_lt_one
  obtain ⟨firstIndex, firstInside, firstHere⟩ := List.getElem_of_mem firstMember
  obtain ⟨secondIndex, secondInside, secondHere⟩ := List.getElem_of_mem secondMember
  rw [List.getElem_zipIdx] at firstHere secondHere
  have ordered := List.pairwise_iff_getElem.1 apart firstIndex secondIndex firstInside secondInside
    (by cases firstHere; cases secondHere; omega)
  rw [List.getElem_zipIdx, List.getElem_zipIdx, firstHere, secondHere] at ordered
  exact ordered

/-- A node has a tag when its kind has it. -/
theorem is_iff (document : Document) (number : Nat) (tag : Tag) :
    document.is number tag = true ↔ ∃ kind, document.kind? number = some kind ∧ kind.tag = tag := by
  simp [is]

/-- A node has only one tag. -/
theorem tag_unique {document : Document} {number : Nat} {first second : Tag}
    (isFirst : document.is number first = true) (isSecond : document.is number second = true) :
    first = second := by
  obtain ⟨kind, found, rfl⟩ := (is_iff document number first).1 isFirst
  obtain ⟨other, foundToo, rfl⟩ := (is_iff document number second).1 isSecond
  rw [found] at foundToo
  cases foundToo
  rfl

/-- Only nodes of the document have tags. -/
theorem lt_size_of_is {document : Document} {number : Nat} {tag : Tag}
    (isTag : document.is number tag = true) : number < document.size := by
  obtain ⟨kind, found, -⟩ := (is_iff document number tag).1 isTag
  cases number with
  | zero => exact Nat.succ_pos _
  | succ index =>
      obtain ⟨node, foundNode, -⟩ := Option.map_eq_some_iff.1 found
      obtain ⟨branch, here, -⟩ := Option.map_eq_some_iff.1 foundNode
      exact Nat.succ_lt_succ (List.getElem?_eq_some_iff.1 here).1

/-- A parent with the tag is an ancestor with the tag. -/
theorem ancestor?_isSome_of_parent? {document : Document} {number parent : Nat} {tag : Tag}
    (found : document.parent? number = some parent) (isTag : document.is parent tag = true) :
    (document.ancestor? number tag).isSome = true := by
  rw [ancestor?, ancestors_of_parent? found, List.find?_cons, isTag]
  rfl

/-- The ancestor that is found has the tag. -/
theorem is_of_ancestor? {document : Document} {number ancestor : Nat} {tag : Tag}
    (found : document.ancestor? number tag = some ancestor) :
    document.is ancestor tag = true := by
  have chosen := List.find?_some found
  exact chosen

/-- In a document whose branches form a forest, every parent may hold its children. -/
theorem exists_holder_of_forest {document : Document} {rootTag : Tag}
    (forest : Forest rootTag 0 1 document.branches) (rootIs : document.is 0 rootTag = true)
    {number parent : Nat} {tag : Tag} (found : document.parent? number = some parent)
    (isTag : document.is number tag = true) :
    ∃ holder, document.is parent holder = true ∧ holder.holds tag = true := by
  cases number with
  | zero => simp [parent?] at found
  | succ index =>
      obtain ⟨branch, here, rfl⟩ := Option.map_eq_some_iff.1 found
      have sameTag : branch.node.kind.tag = tag := by
        simpa [is, kind?, node?, here] using isTag
      obtain ⟨holder, isHolder, held⟩ := forest.exists_holder [] [] (by simp) rfl rootIs
        (List.mem_of_getElem? here)
      exact ⟨holder, isHolder, sameTag ▸ held⟩

/-- The document of a feature is a forest below its file. -/
theorem forest_ofFeature (path : Path) (feature? : Option Feature) :
    Forest .file 0 1 (ofFeature path feature?).branches :=
  Forest.layoutAll (Forest.layoutFeature 0) 1 feature?.toList

/-- What was parsed is the layout of a feature below a file. -/
theorem exists_ofFeature_of_parse {path : Path} {source : Text} {document : Document}
    (parsed : parse path source = .ok document) :
    ∃ feature?, Feature.ofLines (Line.ofSource source) = .ok feature? ∧
      document = ofFeature path feature? := by
  unfold parse at parsed
  cases read : Feature.ofLines (Line.ofSource source) with
  | error error =>
      rw [read] at parsed
      cases parsed
  | ok feature? =>
      rw [read] at parsed
      cases parsed
      exact ⟨feature?, rfl, rfl⟩

end Document

end FeatureLint
