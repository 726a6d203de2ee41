import FeatureLint.Document

/-!
This file relates the walk over a document to the shape of its tree. The walk keeps a stack of nodes,
and beside it stands the recursive pre-order, which lists a node and then the pre-orders of its
children. Main statements: the walk is the pre-order of the root, it visits every node exactly once,
and it visits the nodes in the order of their numbers when no branch crosses an earlier one.
-/

namespace FeatureLint.Document

/-- Every node but the root has a parent. -/
theorem parent?_of_lt {document : Document} {number : Nat} (positive : number ≠ 0)
    (known : number < document.size) : ∃ parent, document.parent? number = some parent := by
  obtain ⟨index, rfl⟩ := Nat.exists_eq_succ_of_ne_zero positive
  have within : index < document.branches.length := Nat.lt_of_succ_lt_succ known
  exact ⟨document.branches[index].parent, by simp [parent?, within]⟩

theorem lt_size_of_parent? {document : Document} {number parent : Nat}
    (found : document.parent? number = some parent) : number < document.size := by
  cases number with
  | zero => simp [parent?] at found
  | succ index =>
      obtain ⟨branch, here, -⟩ := Option.map_eq_some_iff.1 found
      have within := (List.getElem?_eq_some_iff.1 here).1
      exact Nat.succ_lt_succ within

/-- The parent of a node is that of the branch with its number. -/
theorem parent?_eq_some_iff (document : Document) (number parent : Nat) :
    document.parent? number = some parent ↔
      ∃ branch, (branch, number) ∈ document.branches.zipIdx 1 ∧ branch.parent = parent := by
  cases number with
  | zero => simp [parent?, List.mk_mem_zipIdx_iff_le_and_getElem?_sub]
  | succ index => simp [parent?, List.mk_mem_zipIdx_iff_le_and_getElem?_sub]

/-- The children of a node are the nodes that have it as parent. -/
theorem mem_children_iff (document : Document) (number child : Nat) :
    child ∈ document.children number ↔ document.parent? child = some number := by
  rw [parent?_eq_some_iff, children, List.mem_filterMap]
  constructor
  · intro given
    obtain ⟨⟨branch, index⟩, member, chosen⟩ := given
    obtain ⟨same, equal⟩ := Option.ite_none_right_eq_some.1 chosen
    cases equal
    exact ⟨branch, member, same⟩
  · intro given
    obtain ⟨branch, member, same⟩ := given
    exact ⟨(branch, child), member, if_pos same⟩

/-- A child comes after its parent. -/
theorem lt_of_mem_children {document : Document} {number child : Nat}
    (member : child ∈ document.children number) : number < child :=
  lt_of_parent? ((mem_children_iff document number child).1 member)

theorem lt_size_of_mem_children {document : Document} {number child : Nat}
    (member : child ∈ document.children number) : child < document.size :=
  lt_size_of_parent? ((mem_children_iff document number child).1 member)

/-- Children are numbered in the order in which they were attached. -/
theorem pairwise_children (document : Document) (number : Nat) :
    (document.children number).Pairwise (· < ·) := by
  have numbered : (document.branches.zipIdx 1).Pairwise fun first second => first.2 < second.2 := by
    have increasing := List.pairwise_lt_range' (s := 1) (n := document.branches.length)
    rwa [← List.zipIdx_map_snd, List.pairwise_map] at increasing
  refine numbered.filterMap _ ?_
  intro first second smaller child chosen other chosenToo
  simp only [Option.ite_none_right_eq_some, Option.some.injEq] at chosen chosenToo
  omega

/-- The ancestors of a node are its parent and the ancestors of the parent. -/
theorem ancestors_of_parent? {document : Document} {number parent : Nat}
    (found : document.parent? number = some parent) :
    document.ancestors number = parent :: document.ancestors parent := by
  rw [ancestors]
  split
  · next missing => simp [missing] at found
  · next other foundToo =>
      rw [found] at foundToo
      cases foundToo
      rfl

theorem ancestors_of_parent?_eq_none {document : Document} {number : Nat}
    (missing : document.parent? number = none) : document.ancestors number = [] := by
  rw [ancestors]
  split
  · rfl
  · next parent found => simp [missing] at found

/-- Ancestors come before the node. -/
theorem lt_of_mem_ancestors {document : Document} {number ancestor : Nat}
    (member : ancestor ∈ document.ancestors number) : ancestor < number := by
  induction number using Nat.strongRecOn with
  | ind number inductionHypothesis =>
      cases found : document.parent? number with
      | none => simp [ancestors_of_parent?_eq_none found] at member
      | some parent =>
          have smaller := lt_of_parent? found
          rw [ancestors_of_parent? found, List.mem_cons] at member
          rcases member with rfl | above
          · exact smaller
          · exact Nat.lt_trans (inductionHypothesis parent smaller above) smaller

/-- A node comes first in its own lineage, before its ancestors. -/
def lineage (document : Document) (number : Nat) : List Nat :=
  number :: document.ancestors number

/-- Nothing in the lineage of a node comes after it. -/
theorem le_of_mem_lineage {document : Document} {number ancestor : Nat}
    (member : ancestor ∈ document.lineage number) : ancestor ≤ number := by
  rcases List.mem_cons.1 member with rfl | above
  · exact Nat.le_refl _
  · exact Nat.le_of_lt (lt_of_mem_ancestors above)

/-- The lineage of a node is the node and the lineage of its parent. -/
theorem lineage_of_parent? {document : Document} {number parent : Nat}
    (found : document.parent? number = some parent) :
    document.lineage number = number :: document.lineage parent := by
  rw [lineage, ancestors_of_parent? found, lineage]

/-- A lineage goes on with the parent of each of its nodes. -/
theorem parent_mem_lineage {document : Document} {number ancestor parent : Nat}
    (member : ancestor ∈ document.lineage number)
    (found : document.parent? ancestor = some parent) : parent ∈ document.lineage number := by
  induction number using Nat.strongRecOn with
  | ind number inductionHypothesis =>
      rcases List.mem_cons.1 member with rfl | above
      · rw [lineage_of_parent? found]
        simp [lineage]
      · cases foundBelow : document.parent? number with
        | none => simp [ancestors_of_parent?_eq_none foundBelow] at above
        | some below =>
            rw [ancestors_of_parent? foundBelow] at above
            rw [lineage_of_parent? foundBelow]
            exact List.mem_cons_of_mem _
              (inductionHypothesis below (lt_of_parent? foundBelow) above)

/-- Every lineage ends at the root. -/
theorem root_mem_lineage {document : Document} {number : Nat} (known : number < document.size) :
    0 ∈ document.lineage number := by
  induction number using Nat.strongRecOn with
  | ind number inductionHypothesis =>
      by_cases root : number = 0
      · simp [lineage, root]
      · obtain ⟨parent, found⟩ := parent?_of_lt root known
        have smaller := lt_of_parent? found
        rw [lineage_of_parent? found]
        exact List.mem_cons_of_mem _
          (inductionHypothesis parent smaller (Nat.lt_trans smaller known))

/-- The recursive pre-order lists a node and then the pre-orders of its children. -/
def preorder (document : Document) (number : Nat) : List Nat :=
  number :: (document.children number).attach.flatMap fun child => document.preorder child.1
termination_by document.size - number
decreasing_by
  have later := lt_of_mem_children child.2
  have known := lt_size_of_mem_children child.2
  omega

/-- The pre-order of a node begins with it and goes on with its children. -/
theorem preorder_eq (document : Document) (number : Nat) :
    document.preorder number =
      number :: (document.children number).flatMap document.preorder := by
  rw [preorder, List.flatMap_subtype (fun _ _ => rfl), List.unattach_attach]

theorem mem_preorder_self (document : Document) (number : Nat) :
    number ∈ document.preorder number := by
  rw [preorder_eq]
  exact List.mem_cons_self

/-- A pre-order has all children of its nodes. -/
theorem mem_preorder_of_parent? {document : Document} {number parent child : Nat}
    (member : parent ∈ document.preorder number)
    (found : document.parent? child = some parent) : child ∈ document.preorder number := by
  fun_induction preorder document number with
  | case1 number inductionHypothesis =>
      rw [← preorder, preorder_eq] at member ⊢
      have own := (mem_children_iff document parent child).2 found
      rcases List.mem_cons.1 member with rfl | below
      · exact List.mem_cons_of_mem _
          (List.mem_flatMap.2 ⟨child, own, mem_preorder_self document child⟩)
      · obtain ⟨middle, first, inside⟩ := List.mem_flatMap.1 below
        exact List.mem_cons_of_mem _
          (List.mem_flatMap.2 ⟨middle, first, inductionHypothesis ⟨middle, first⟩ inside⟩)

/-- The pre-order of a node holds exactly the nodes that have it in their lineage. -/
theorem mem_preorder_iff (document : Document) (number member : Nat) :
    member ∈ document.preorder number ↔ number ∈ document.lineage member := by
  constructor
  · intro inside
    fun_induction preorder document number with
    | case1 number inductionHypothesis =>
        rw [← preorder, preorder_eq] at inside
        rcases List.mem_cons.1 inside with rfl | below
        · exact List.mem_cons_self
        · obtain ⟨child, own, inChild⟩ := List.mem_flatMap.1 below
          exact parent_mem_lineage (inductionHypothesis ⟨child, own⟩ inChild)
            ((mem_children_iff document number child).1 own)
  · intro above
    induction member using Nat.strongRecOn with
    | ind member inductionHypothesis =>
        rcases List.mem_cons.1 above with rfl | proper
        · exact mem_preorder_self document number
        · cases found : document.parent? member with
          | none => simp [ancestors_of_parent?_eq_none found] at proper
          | some parent =>
              rw [ancestors_of_parent? found] at proper
              exact mem_preorder_of_parent?
                (inductionHypothesis parent (lt_of_parent? found) proper) found

/-- Two nodes of one lineage lie above each other. -/
theorem mem_lineage_of_le {document : Document} {number lower upper : Nat}
    (lowerMember : lower ∈ document.lineage number)
    (upperMember : upper ∈ document.lineage number) (ordered : upper ≤ lower) :
    upper ∈ document.lineage lower := by
  induction number using Nat.strongRecOn with
  | ind number inductionHypothesis =>
      rcases List.mem_cons.1 lowerMember with rfl | lowerAbove
      · exact upperMember
      · have smaller := lt_of_mem_ancestors lowerAbove
        cases found : document.parent? number with
        | none => simp [ancestors_of_parent?_eq_none found] at lowerAbove
        | some parent =>
            rw [ancestors_of_parent? found] at lowerAbove
            rw [lineage_of_parent? found, List.mem_cons] at upperMember
            have upperAbove := upperMember.resolve_left (by omega)
            exact inductionHypothesis parent (lt_of_parent? found) lowerAbove upperAbove

/-- Of two siblings in one lineage, the smaller one would lie between the other and their parent. -/
theorem not_mem_lineage_of_sibling {document : Document} {parent first second : Nat}
    (firstFound : document.parent? first = some parent)
    (secondFound : document.parent? second = some parent) (smaller : first < second) :
    first ∉ document.lineage second := by
  intro member
  rw [lineage_of_parent? secondFound, List.mem_cons] at member
  have later := lt_of_parent? firstFound
  rcases member with equal | above
  · omega
  · have bound := le_of_mem_lineage above
    omega

/-- No node stands twice in a pre-order. -/
theorem nodup_preorder (document : Document) (number : Nat) :
    (document.preorder number).Nodup := by
  fun_induction preorder document number with
  | case1 number inductionHypothesis =>
      rw [← preorder, preorder_eq, List.nodup_cons]
      constructor
      · intro inside
        obtain ⟨child, own, inChild⟩ := List.mem_flatMap.1 inside
        have later := lt_of_mem_children own
        have bound := le_of_mem_lineage ((mem_preorder_iff document child number).1 inChild)
        omega
      · rw [List.Nodup, List.pairwise_flatMap]
        refine ⟨fun child own => inductionHypothesis ⟨child, own⟩, ?_⟩
        refine (document.pairwise_children number).imp_of_mem ?_
        intro first second firstOwn secondOwn smaller member inFirst other inSecond equal
        subst equal
        -- A node below two siblings would have both of them in its lineage.
        have firstAbove := (mem_preorder_iff document first member).1 inFirst
        have secondAbove := (mem_preorder_iff document second member).1 inSecond
        exact not_mem_lineage_of_sibling ((mem_children_iff document number first).1 firstOwn)
          ((mem_children_iff document number second).1 secondOwn) smaller
          (mem_lineage_of_le secondAbove firstAbove (Nat.le_of_lt smaller))

/-- The pre-order of the root has every node. -/
theorem mem_preorder_root_iff (document : Document) (number : Nat) :
    number ∈ document.preorder 0 ↔ number < document.size := by
  rw [mem_preorder_iff]
  constructor
  · intro above
    rcases List.mem_cons.1 above with rfl | proper
    · exact Nat.succ_pos _
    · cases found : document.parent? number with
      | none => simp [ancestors_of_parent?_eq_none found] at proper
      | some parent => exact lt_size_of_parent? found
  · exact root_mem_lineage

/-- The pre-order of the root has every node once. -/
theorem preorder_root_perm (document : Document) :
    (document.preorder 0).Perm (List.range document.size) := by
  rw [List.perm_ext_iff_of_nodup (document.nodup_preorder 0) List.nodup_range]
  intro number
  rw [mem_preorder_root_iff, List.mem_range]

/-- A walk with room for every node below its stack lists the pre-orders of the stack. -/
theorem walkFrom_eq_flatMap_preorder (document : Document) (limit : Nat) (stack : List Nat)
    (room : (stack.flatMap document.preorder).length ≤ limit) :
    document.walkFrom limit stack = stack.flatMap document.preorder := by
  induction limit generalizing stack with
  | zero =>
      cases stack with
      | nil => rfl
      | cons number stack =>
          rw [List.flatMap_cons, preorder_eq] at room
          simp at room
  | succ limit inductionHypothesis =>
      cases stack with
      | nil => rfl
      | cons number stack =>
          have opened : (number :: stack).flatMap document.preorder =
              number :: (document.children number ++ stack).flatMap document.preorder := by
            rw [List.flatMap_cons, preorder_eq, List.flatMap_append, List.cons_append]
          rw [opened, List.length_cons] at room
          rw [walkFrom, opened, inductionHypothesis _ (Nat.le_of_succ_le_succ room)]

/-- The walk with a stack is the recursive pre-order. -/
theorem walk_eq_preorder (document : Document) : document.walk = document.preorder 0 := by
  have room := document.preorder_root_perm.length_eq
  rw [List.length_range] at room
  have walked := document.walkFrom_eq_flatMap_preorder document.size [0] (by simp [room])
  simpa [walk] using walked

/-- The walk visits every node of the document exactly once. -/
theorem walk_perm_range (document : Document) :
    document.walk.Perm (List.range document.size) := by
  rw [walk_eq_preorder]
  exact document.preorder_root_perm

/-- The walk visits every node. -/
theorem mem_walk_iff (document : Document) (number : Nat) :
    number ∈ document.walk ↔ number < document.size := by
  rw [document.walk_perm_range.mem_iff, List.mem_range]

/-- A document is uncrossed when no node is attached strictly between an earlier node and the parent
of that node. -/
def Uncrossed (document : Document) : Prop :=
  ∀ first second firstParent secondParent,
    document.parent? first = some firstParent → document.parent? second = some secondParent →
      first < second → secondParent ≤ firstParent ∨ first ≤ secondParent

/-- Once a sibling has been attached, nothing more is attached below the one before it. -/
theorem Uncrossed.not_mem_lineage {document : Document} (uncrossed : document.Uncrossed)
    {parent first second : Nat} (firstFound : document.parent? first = some parent)
    (secondFound : document.parent? second = some parent) (smaller : first < second)
    (number : Nat) (later : second ≤ number) : first ∉ document.lineage number := by
  induction number using Nat.strongRecOn with
  | ind number inductionHypothesis =>
      rcases Nat.eq_or_lt_of_le later with rfl | after
      · exact not_mem_lineage_of_sibling firstFound secondFound smaller
      · intro member
        have proper := (List.mem_cons.1 member).resolve_left (by omega)
        cases found : document.parent? number with
        | none => simp [ancestors_of_parent?_eq_none found] at proper
        | some below =>
            rw [ancestors_of_parent? found] at proper
            rcases uncrossed second number parent below secondFound found after with low | high
            · have bound := le_of_mem_lineage proper
              have above := lt_of_parent? firstFound
              omega
            · exact inductionHypothesis below (lt_of_parent? found) high proper

/-- In an uncrossed document a pre-order follows the numbers. -/
theorem Uncrossed.pairwise_preorder {document : Document} (uncrossed : document.Uncrossed)
    (number : Nat) : (document.preorder number).Pairwise (· < ·) := by
  fun_induction preorder document number with
  | case1 number inductionHypothesis =>
      rw [← preorder, preorder_eq, List.pairwise_cons]
      constructor
      · intro member inside
        obtain ⟨child, own, inChild⟩ := List.mem_flatMap.1 inside
        have bound := le_of_mem_lineage ((mem_preorder_iff document child member).1 inChild)
        exact Nat.lt_of_lt_of_le (lt_of_mem_children own) bound
      · rw [List.pairwise_flatMap]
        refine ⟨fun child own => inductionHypothesis ⟨child, own⟩, ?_⟩
        refine (document.pairwise_children number).imp_of_mem ?_
        intro first second firstOwn secondOwn smaller member inFirst other inSecond
        have bound := le_of_mem_lineage ((mem_preorder_iff document second other).1 inSecond)
        refine Nat.lt_of_not_le fun overtaken => ?_
        exact uncrossed.not_mem_lineage ((mem_children_iff document number first).1 firstOwn)
          ((mem_children_iff document number second).1 secondOwn) smaller member
          (Nat.le_trans bound overtaken) ((mem_preorder_iff document first member).1 inFirst)

/-- The walk over an uncrossed document visits the nodes in the order of their numbers. -/
theorem Uncrossed.walk_eq_range {document : Document} (uncrossed : document.Uncrossed) :
    document.walk = List.range document.size := by
  refine document.walk_perm_range.eq_of_pairwise ?_ ?_ List.pairwise_lt_range
  · intro first second _ _ smaller larger
    exact absurd smaller (Nat.lt_asymm larger)
  · rw [walk_eq_preorder]
    exact uncrossed.pairwise_preorder 0

end FeatureLint.Document
