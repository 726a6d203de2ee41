import FeatureLint.Proofs.Arena
import FeatureLint.Proofs.Walk
import Mathlib.Data.List.Sort

/-!
This file says which arenas are trees. Main statements: additions under known parents build the arena of a
document, so that the walk visits it once and in pre-order and every ancestor is found, and accepted additions
with a parent that is not known leave a node that is its own parent, which no walk visits and from which no climb
ends.
-/

namespace FeatureLint

/-- Branches are grounded when each of them hangs from an earlier node. -/
theorem grounded_of_forall {next : Nat} {branches : List Branch}
    (earlier : ∀ index branch, branches[index]? = some branch → branch.parent < next + index) :
    Grounded next branches := by
  induction branches generalizing next with
  | nil => trivial
  | cons branch rest inductionHypothesis =>
      constructor
      · exact earlier 0 branch rfl
      · apply inductionHypothesis
        intro index other found
        have smaller := earlier (index + 1) other found
        omega

namespace Document

theorem children_eq_nil {document : Document} {number : Nat} (outside : document.size ≤ number) :
    document.children number = [] := by
  apply List.eq_nil_iff_forall_not_mem.2
  intro child member
  have later := lt_of_mem_children member
  have within := lt_size_of_mem_children member
  omega

/-- The slots of a document have its nodes with their parents and children. -/
theorem getElem?_slots_arena (document : Document) (number : Nat) :
    document.arena.slots[number]? = (document.node? number).map fun node =>
      ⟨node, document.parent? number, document.children number⟩ := by
  cases number with
  | zero => rfl
  | succ index =>
      rw [arena, List.getElem?_cons_succ, List.getElem?_map, List.getElem?_zipIdx, node?, parent?]
      cases document.branches[index]? with
      | none => rfl
      | some branch => simp [Nat.add_comm]

@[simp] theorem size_arena (document : Document) : document.arena.size = document.size := by
  simp [arena, Arena.size, size]

/-- Exactly the numbers below the size have nodes. -/
theorem node?_eq_none_iff (document : Document) (number : Nat) :
    document.node? number = none ↔ document.size ≤ number := by
  cases number <;> simp [node?, size]

@[simp] theorem parent?_arena (document : Document) (number : Nat) :
    document.arena.parent? number = document.parent? number := by
  rw [Arena.parent?, getElem?_slots_arena, Option.bind_map]
  cases found : document.node? number with
  | none =>
      cases above : document.parent? number with
      | none => rfl
      | some parent =>
          have outside := (node?_eq_none_iff document number).1 found
          have inside := lt_size_of_parent? above
          omega
  | some node => rfl

@[simp] theorem children_arena (document : Document) (number : Nat) :
    document.arena.children number = document.children number := by
  rw [Arena.children, getElem?_slots_arena]
  cases found : document.node? number with
  | none => exact (children_eq_nil ((node?_eq_none_iff document number).1 found)).symm
  | some node => rfl

end Document

namespace Arena

/-- A slot has the node of its number with its parent and its children. -/
theorem getElem?_slots_eq (arena : Arena) (number : Nat) :
    arena.slots[number]? = (arena.node? number).map fun node =>
      ⟨node, arena.parent? number, arena.children number⟩ := by
  rw [node?, parent?, children]
  cases arena.slots[number]? <;> rfl

/-- A linked arena is determined by its nodes and their parents. -/
theorem arena_eq_of_agree {arena : Arena} {document : Document} (linked : arena.Linked)
    (nodes : ∀ number, document.node? number = arena.node? number)
    (parents : ∀ number, document.parent? number = arena.parent? number) :
    document.arena = arena := by
  -- Both lists of children are increasing, so it is enough that they have the same members.
  have sameChildren (number : Nat) : document.children number = arena.children number := by
    apply (document.pairwise_children number).eq_of_mem_iff (linked.increasing number)
    intro child
    rw [Document.mem_children_iff, linked.mem_children, parents]
  rw [Arena.mk.injEq]
  apply List.ext_getElem?
  intro number
  rw [Document.getElem?_slots_arena, getElem?_slots_eq, nodes, parents, sameChildren]

/-- A linked arena with earlier parents is the arena of a document. -/
theorem exists_document {arena : Arena} (linked : arena.Linked) (earlier : arena.Earlier) :
    ∃ document, arena.document? = some document ∧ document.arena = arena := by
  match arena, linked, earlier with
  | ⟨[]⟩, linked, _ => exact absurd linked.root.1 (Nat.lt_irrefl 0)
  | ⟨root :: rest⟩, linked, earlier =>
      have parents (index : Nat) : (rest.map Slot.branch)[index]?.map Branch.parent =
          parent? ⟨root :: rest⟩ (index + 1) := by
        rw [parent?, List.getElem?_cons_succ, List.getElem?_map, Option.map_map]
        cases found : rest[index]? with
        | none => rfl
        | some slot =>
            have inside := (List.getElem?_eq_some_iff.1 found).1
            obtain ⟨parent, -, above⟩ := linked.parent (index + 1) (Nat.succ_lt_succ inside)
              (Nat.succ_ne_zero index)
            rw [parent?, List.getElem?_cons_succ, found, Option.bind_some] at above
            simp [Slot.branch, above]
      have grounded : Grounded 1 (rest.map Slot.branch) := by
        apply grounded_of_forall
        intro index branch found
        have above := parents index
        rw [found, Option.map_some] at above
        have smaller := earlier (index + 1) branch.parent above.symm
        omega
      refine ⟨⟨root.node, rest.map Slot.branch, grounded⟩, dif_pos grounded, ?_⟩
      apply arena_eq_of_agree linked
      · intro number
        cases number with
        | zero => rfl
        | succ index =>
            rw [Document.node?, node?, List.getElem?_map, Option.map_map, List.getElem?_cons_succ]
            rfl
      · intro number
        cases number with
        | zero => exact linked.root.2.symm
        | succ index => exact parents index

theorem visits_nil (arena : Arena) (limit : Nat) : arena.visits limit [] = [] := by
  cases limit <;> rfl

/-- The node on top of the stack is visited, and its children take its place. -/
theorem visits_concat (arena : Arena) (limit : Nat) (below : List Nat) (number : Nat) :
    arena.visits (limit + 1) (below ++ [number]) =
      number :: arena.visits limit (below ++ (arena.children number).reverse) := by
  rw [visits, next?, List.getLast?_concat, List.dropLast_concat, Option.map_some]

end Arena

namespace Document

/-- The walk of an arena keeps on its stack, from the top down, the nodes whose pre-orders are still to come. -/
theorem visits_arena (document : Document) (limit : Nat) (stack : List Nat) :
    document.arena.visits limit stack = (stack.reverse.flatMap document.preorder).take limit := by
  induction limit generalizing stack with
  | zero => rw [Arena.visits, List.take_zero]
  | succ limit inductionHypothesis =>
      rcases List.eq_nil_or_concat stack with rfl | ⟨below, number, rfl⟩
      · exact document.arena.visits_nil (limit + 1)
      · rw [List.concat_eq_append, Arena.visits_concat, children_arena, inductionHypothesis,
          List.reverse_append, List.reverse_reverse, List.flatMap_append, List.reverse_append,
          List.reverse_singleton, List.singleton_append, List.flatMap_cons, preorder_eq,
          List.cons_append, List.take_succ_cons]

/-- The walk through the arena of a document is its pre-order. -/
theorem walk_arena (document : Document) : document.arena.walk = document.preorder 0 := by
  have length := document.preorder_root_perm.length_eq
  rw [List.length_range] at length
  rw [Arena.walk, visits_arena, size_arena, List.reverse_singleton, List.flatMap_singleton, ← length,
    List.take_length]

/-- A climb in the arena of a document goes through the ancestors. -/
theorem climb_arena (document : Document) (limit number : Nat) :
    document.arena.climb limit number = (document.ancestors number).take limit := by
  induction limit generalizing number with
  | zero => rw [Arena.climb, List.take_zero]
  | succ limit inductionHypothesis =>
      rw [Arena.climb, parent?_arena]
      cases found : document.parent? number with
      | none => rw [ancestors_of_parent?_eq_none found, List.take_nil]
      | some parent =>
          rw [ancestors_of_parent? found, List.take_succ_cons, ← inductionHypothesis]

/-- A node has no more ancestors than earlier nodes. -/
theorem length_ancestors_le (document : Document) (number : Nat) :
    (document.ancestors number).length ≤ number := by
  induction number using Nat.strongRecOn with
  | ind number inductionHypothesis =>
      cases found : document.parent? number with
      | none =>
          rw [ancestors_of_parent?_eq_none found]
          exact Nat.zero_le number
      | some parent =>
          have smaller := lt_of_parent? found
          have bound := inductionHypothesis parent smaller
          rw [ancestors_of_parent? found, List.length_cons]
          omega

/-- A document and its arena have the same ancestors. -/
theorem ancestors_arena {document : Document} {number : Nat} (known : number < document.size) :
    document.arena.ancestors number = document.ancestors number := by
  have bound := document.length_ancestors_le number
  rw [Arena.ancestors, climb_arena, size_arena]
  exact List.take_of_length_le (by omega)

/-- Every node but the root has an earlier parent. -/
theorem exists_parent?_arena (document : Document) {number : Nat} (known : number < document.arena.size)
    (positive : number ≠ 0) : ∃ parent < number, document.arena.parent? number = some parent := by
  rw [size_arena] at known
  obtain ⟨parent, found⟩ := parent?_of_lt positive known
  rw [parent?_arena]
  exact ⟨parent, lt_of_parent? found, found⟩

/-- Every step up a lineage goes to a smaller number. -/
theorem pairwise_lineage (document : Document) (number : Nat) :
    (document.lineage number).Pairwise (· > ·) := by
  induction number using Nat.strongRecOn with
  | ind number inductionHypothesis =>
      rw [lineage, List.pairwise_cons]
      constructor
      · intro ancestor member
        exact lt_of_mem_ancestors member
      · cases found : document.parent? number with
        | none =>
            rw [ancestors_of_parent?_eq_none found]
            exact List.Pairwise.nil
        | some parent =>
            rw [ancestors_of_parent? found]
            exact inductionHypothesis parent (lt_of_parent? found)

/-- Every lineage ends with the root. -/
theorem getLast?_lineage {document : Document} {number : Nat} (known : number < document.size) :
    (document.lineage number).getLast? = some 0 := by
  induction number using Nat.strongRecOn with
  | ind number inductionHypothesis =>
      by_cases root : number = 0
      · rw [root, lineage, ancestors_of_parent?_eq_none rfl]
        rfl
      · obtain ⟨parent, found⟩ := parent?_of_lt root known
        have smaller := lt_of_parent? found
        have above := inductionHypothesis parent smaller (by omega)
        rw [lineage_of_parent? found, List.getLast?_cons, above]
        rfl

end Document

namespace Arena

/-- This says that an answer is the first node of a chain with a tag, or that there is none. -/
def IsNearest (arena : Arena) (tag : Tag) (chain : List Nat) : Option Nat → Prop
  | some found => arena.is found tag = true ∧ ∃ below above, chain = below ++ found :: above ∧
      ∀ other ∈ below, arena.is other tag = false
  | none => ∀ other ∈ chain, arena.is other tag = false

/-- The first node with the tag is the nearest one. -/
theorem isNearest_find? (arena : Arena) (tag : Tag) (chain : List Nat) :
    arena.IsNearest tag chain (chain.find? fun number => arena.is number tag) := by
  cases answer : chain.find? fun number => arena.is number tag with
  | none =>
      intro other member
      exact Bool.eq_false_iff.2 (List.find?_eq_none.1 answer other member)
  | some found =>
      obtain ⟨tagged, below, above, split, others⟩ := List.find?_eq_some_iff_append.1 answer
      refine ⟨tagged, below, above, split, ?_⟩
      intro other member
      have untagged := others other member
      rwa [Bool.not_eq_true'] at untagged

/-- The file of a node is the nearest one, and a file is its own. -/
theorem isNearest_file? (arena : Arena) (number : Nat) :
    arena.IsNearest .file (number :: arena.ancestors number) (arena.file? number) := by
  have nearest := arena.isNearest_find? .file (number :: arena.ancestors number)
  rw [List.find?_cons] at nearest
  rw [file?, ancestor?]
  split at nearest
  · next isFile => rwa [if_pos isFile]
  · next noFile => rwa [if_neg (Bool.eq_false_iff.1 noFile)]

/-- Known additions build the arena of a document. -/
theorem exists_document_of_known {root : Node} {additions : List Addition} {arena : Arena}
    (added : (ofRoot root).addAll? additions = some arena) (known : Addition.Known 1 additions) :
    ∃ document : Document, document.arena = arena := by
  have earlier := (earlier_addAll?_iff added).2 ⟨earlier_ofRoot root, known⟩
  obtain ⟨document, -, same⟩ := exists_document (linked_of_addAll? added) earlier
  exact ⟨document, same⟩

/-- Additions under known parents build a tree, and the walk visits it once and in pre-order. The arena holds the
root and the nodes of all additions under the parents they were given. Every parent has a smaller number,
children and parents agree, and children are listed in increasing order. The walk stops after the recursive
pre-order of the root, in which every number of the arena comes once. The ancestors of a node have decreasing
numbers and stop at the root, and the nearest one with a tag is found whenever there is one. -/
theorem known_additions_walk_in_preorder (root : Node) (additions : List Addition)
    (known : Addition.Known 1 additions) :
    ∃ arena, (ofRoot root).addAll? additions = some arena ∧
      (arena.node? 0 = some root ∧
        arena.slots.tail.map Slot.branch = Addition.allBranches 1 additions) ∧
      (arena.parent? 0 = none ∧ ∀ number < arena.size, number ≠ 0 →
        ∃ parent < number, arena.parent? number = some parent) ∧
      (∀ parent child, child ∈ arena.children parent ↔ arena.parent? child = some parent) ∧
      (∀ number, (arena.children number).Pairwise (· < ·)) ∧
      (∃ preorder : Nat → List Nat,
        (∀ number, preorder number = number :: (arena.children number).flatMap preorder) ∧
        arena.walk = preorder 0 ∧ ∀ limit, arena.visits limit [0] = (preorder 0).take limit) ∧
      arena.walk.Perm (List.range arena.size) ∧
      ∀ number < arena.size,
        (∀ limit, arena.climb limit number = (arena.ancestors number).take limit) ∧
        (number :: arena.ancestors number).Pairwise (· > ·) ∧
        (number :: arena.ancestors number).getLast? = some 0 ∧
        (∀ tag, arena.IsNearest tag (arena.ancestors number) (arena.ancestor? number tag)) ∧
        arena.IsNearest .file (number :: arena.ancestors number) (arena.file? number) := by
  obtain ⟨arena, added⟩ := @exists_addAll?_of_known (ofRoot root) additions known
  have linked := linked_of_addAll? added
  obtain ⟨document, rfl⟩ := exists_document_of_known added known
  refine ⟨document.arena, added, holds_of_addAll? added, ⟨linked.root.2, ?_⟩, linked.mem_children,
    linked.increasing, ⟨document.preorder, ?_, document.walk_arena, ?_⟩, ?_, ?_⟩
  · exact fun number within positive => document.exists_parent?_arena within positive
  · intro number
    rw [Document.children_arena]
    exact document.preorder_eq number
  · intro limit
    rw [Document.visits_arena, List.reverse_singleton, List.flatMap_singleton]
  · rw [Document.walk_arena, Document.size_arena]
    exact document.preorder_root_perm
  · intro number within
    rw [Document.size_arena] at within
    refine ⟨?_, ?_, ?_, ?_, document.arena.isNearest_file? number⟩
    · intro limit
      rw [Document.ancestors_arena within, Document.climb_arena]
    · rw [Document.ancestors_arena within]
      exact document.pairwise_lineage number
    · rw [Document.ancestors_arena within]
      exact Document.getLast?_lineage within
    · intro tag
      exact document.arena.isNearest_find? tag (document.arena.ancestors number)

/-- The last row is added to the first table when the second table already has a row, so the walk does not follow
the numbers. -/
theorem known_additions_walk_in_preorder_under_early_parent :
    let root : Node := ⟨.feature "F".toList, 1⟩
    let additions : List Addition :=
      [.node 0 ⟨.examples "first".toList, 2⟩, .node 0 ⟨.examples "second".toList, 5⟩,
        .row 1 ["a".toList] 3, .row 2 ["b".toList] 6, .row 1 ["c".toList] 4]
    Addition.Known 1 additions ∧ ∃ arena, (ofRoot root).addAll? additions = some arena ∧
      arena.walk = [0, 1, 3, 4, 7, 8, 2, 5, 6] ∧ arena.walk.Perm (List.range 9) ∧
      arena.ancestors 8 = [7, 1, 0] ∧ arena.IsNearest .examples [7, 1, 0] (some 1) := by
  intro root additions
  have known : Addition.Known 1 additions := by decide
  obtain ⟨arena, added, -, -, -, -, -, once, climbs⟩ := known_additions_walk_in_preorder root additions known
  have visited : ((ofRoot root).addAll? additions).map walk = some [0, 1, 3, 4, 7, 8, 2, 5, 6] := by
    decide
  have climbed : ((ofRoot root).addAll? additions).map (fun arena => arena.ancestors 8) =
      some [7, 1, 0] := by
    decide
  have asked : ((ofRoot root).addAll? additions).map (fun arena => arena.ancestor? 8 .examples) =
      some (some 1) := by
    decide
  have size : ((ofRoot root).addAll? additions).map Arena.size = some 9 := by decide
  rw [added, Option.map_some, Option.some.injEq] at visited climbed asked size
  rw [size] at once climbs
  obtain ⟨-, -, -, nearest, -⟩ := climbs 8 (by decide)
  refine ⟨known, arena, added, visited, once, climbed, ?_⟩
  rw [← asked, ← climbed]
  exact nearest .examples

/-- What the children of a node inherit from it, the walk keeps. -/
theorem forall_mem_visits {arena : Arena} {motive : Nat → Prop}
    (inherited : ∀ number, motive number → ∀ child ∈ arena.children number, motive child)
    (limit : Nat) {stack : List Nat} (start : ∀ number ∈ stack, motive number) :
    ∀ number ∈ arena.visits limit stack, motive number := by
  induction limit generalizing stack with
  | zero =>
      intro number visited
      contradiction
  | succ limit inductionHypothesis =>
      rcases List.eq_nil_or_concat stack with rfl | ⟨below, top, rfl⟩
      · intro number visited
        contradiction
      · rw [List.concat_eq_append] at start ⊢
        have atTop : motive top := start top (by simp)
        rw [visits_concat, List.forall_mem_cons]
        constructor
        · exact atTop
        · apply inductionHypothesis
          intro number waiting
          rcases List.mem_append.1 waiting with old | new
          · exact start number (by simp [old])
          · exact inherited top atTop number (List.mem_reverse.1 new)

/-- A node that is its own parent is nobody else's child, so no walk from elsewhere comes to it. -/
theorem Linked.not_mem_visits {arena : Arena} {number : Nat} (linked : arena.Linked)
    (own : arena.parent? number = some number) (limit : Nat) : number ∉ arena.visits limit [0] := by
  intro visited
  -- To be another node is inherited, because only the node itself has it as a child.
  refine forall_mem_visits (motive := fun other => other ≠ number) ?_ limit ?_ number visited rfl
  · intro parent other child listed same
    rw [linked.mem_children, same, own, Option.some.injEq] at listed
    exact other listed.symm
  · intro start isRoot same
    rw [List.mem_singleton.1 isRoot] at same
    rw [← same, linked.root.2] at own
    contradiction

/-- A climb from a node that is its own parent never leaves it. -/
theorem climb_of_own_parent {arena : Arena} {number : Nat} (own : arena.parent? number = some number)
    (limit : Nat) : arena.climb limit number = List.replicate limit number := by
  induction limit with
  | zero => rfl
  | succ limit inductionHypothesis =>
      rw [climb, own, List.replicate_succ]
      show number :: arena.climb limit number = number :: List.replicate limit number
      rw [inductionHypothesis]

/-- A linked arena has earlier parents unless a node is its own parent. -/
theorem Linked.exists_own_parent {arena : Arena} (linked : arena.Linked) (looped : ¬ arena.Earlier) :
    ∃ number, arena.parent? number = some number := by
  rw [Earlier] at looped
  simp only [not_forall, Nat.not_lt] at looped
  obtain ⟨number, parent, found, later⟩ := looped
  have positive : number ≠ 0 := by
    intro zero
    rw [zero, linked.root.2] at found
    contradiction
  obtain ⟨above, within, same⟩ := linked.parent number (lt_size_of_parent? found) positive
  rw [found, Option.some.injEq] at same
  -- No parent comes after its child, so a parent that is not earlier is the node itself.
  have own : parent = number := by omega
  exact ⟨number, own ▸ found⟩

/-- An addition is refused exactly when its parent comes after its own first node. Accepted additions build a tree
when their parents were known, and otherwise they leave a node that is its own parent: no walk visits it, and
its ancestors never end. -/
theorem accepted_additions_build_tree_or_loop {root : Node} {additions : List Addition} {arena : Arena}
    (added : (ofRoot root).addAll? additions = some arena) :
    arena.slots.tail.map Slot.branch = Addition.allBranches 1 additions ∧
      (∀ addition, arena.add? addition = none ↔ arena.size < addition.parent) ∧
      (Addition.Known 1 additions → ∀ number < arena.size,
        (number ≠ 0 → ∃ parent < number, arena.parent? number = some parent) ∧
        number ∈ arena.walk ∧ (arena.ancestors number).length < arena.size) ∧
      (¬ Addition.Known 1 additions → ∃ number < arena.size,
        arena.parent? number = some number ∧ (∀ limit, number ∉ arena.visits limit [0]) ∧
        ∀ limit, arena.climb limit number = List.replicate limit number) := by
  have linked := linked_of_addAll? added
  refine ⟨(holds_of_addAll? added).2, add?_eq_none_iff arena, ?_, ?_⟩
  · intro given number within
    obtain ⟨document, rfl⟩ := exists_document_of_known added given
    refine ⟨document.exists_parent?_arena within, ?_, ?_⟩
    · rw [Document.walk_arena, Document.mem_preorder_root_iff, ← Document.size_arena]
      exact within
    · rw [Document.size_arena] at within ⊢
      have bound := document.length_ancestors_le number
      rw [Document.ancestors_arena within]
      omega
  · intro unknown
    have looped : ¬ arena.Earlier := by
      intro earlier
      exact unknown ((earlier_addAll?_iff added).1 earlier).2
    obtain ⟨number, own⟩ := linked.exists_own_parent looped
    exact ⟨number, lt_size_of_parent? own, own, linked.not_mem_visits own, climb_of_own_parent own⟩

-- The row is its own parent and its cell hangs on it, so the walk visits neither.
example : ((ofRoot ⟨.feature "F".toList, 1⟩).addAll?
    [.node 0 ⟨.examples "E".toList, 2⟩, .row 2 ["a".toList] 3]).map
      (fun arena => (arena.parent? 2, arena.parent? 3, arena.walk)) =
    some (some 2, some 2, [0, 1]) := by
  decide

end Arena

end FeatureLint
