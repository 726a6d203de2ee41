import FeatureLint.Arena

/-!
This file says what additions do to an arena. Main statements: an addition is refused exactly when its parent
comes after the node that is added, accepted additions put their nodes behind those that are there, every arena
is linked, so that parents and children agree, and each parent comes before its child exactly when the parents of
all additions were there before them.
-/

namespace FeatureLint

namespace Arena

/-- The parent of a new node may be any node, the new one included. -/
theorem push?_eq (arena : Arena) (parent : Nat) (node : Node) :
    arena.push? parent node =
      if parent ≤ arena.size then
        some ⟨(arena.slots ++ [Slot.mk node (some parent) []]).modify parent fun slot =>
          slot.adopt arena.size⟩
      else none := by
  simp only [push?, List.length_append, List.length_singleton, Nat.lt_succ_iff]
  rfl

/-- A node is refused exactly when its parent would come after it. -/
theorem push?_eq_none_iff (arena : Arena) (parent : Nat) (node : Node) :
    arena.push? parent node = none ↔ arena.size < parent := by
  rw [push?_eq]
  split
  · simp only [reduceCtorEq, false_iff]
    omega
  · simp only [true_iff]
    omega

/-- The new node has the last slot, and the slot of its parent adopts it. -/
theorem getElem?_slots_of_push? {arena grown : Arena} {parent : Nat} {node : Node}
    (pushed : arena.push? parent node = some grown) (number : Nat) :
    grown.slots[number]? =
      (if number = arena.size then some ⟨node, some parent, []⟩ else arena.slots[number]?).map
        fun slot => if parent = number then slot.adopt arena.size else slot := by
  rw [push?_eq] at pushed
  obtain ⟨-, same⟩ := Option.ite_none_right_eq_some.1 pushed
  cases same
  rw [List.getElem?_modify]
  show Option.map _ _ = _
  congr 1
  rcases Nat.lt_trichotomy number arena.size with old | new | outside
  · rw [if_neg (by omega), List.getElem?_append_left old]
  · rw [if_pos new, new, size, List.getElem?_concat_length]
  · rw [if_neg (by omega), List.getElem?_eq_none, List.getElem?_eq_none]
    · rw [← size]
      omega
    · rw [List.length_append, List.length_singleton, ← size]
      omega

/-- This is what one more node does to an arena, whatever its parent is. -/
structure Pushed (arena : Arena) (parent : Nat) (node : Node) (grown : Arena) : Prop where
  parent_le : parent ≤ arena.size
  size : grown.size = arena.size + 1
  node? : ∀ number, grown.node? number = if number = arena.size then some node else arena.node? number
  parent? : ∀ number,
    grown.parent? number = if number = arena.size then some parent else arena.parent? number
  children : ∀ number,
    grown.children number = arena.children number ++ if parent = number then [arena.size] else []

/-- A number without a node has no children. -/
theorem children_eq_nil {arena : Arena} {number : Nat} (outside : arena.size ≤ number) :
    arena.children number = [] := by
  rw [children, List.getElem?_eq_none outside]
  rfl

/-- What an adoption keeps of a slot is kept when only one parent adopts. -/
theorem comp_adopt {α : Type} {field : Slot → α}
    (kept : ∀ slot child, field (Slot.adopt slot child) = field slot) (parent number child : Nat) :
    (field ∘ fun slot => if parent = number then slot.adopt child else slot) = field := by
  funext slot
  show field (if parent = number then slot.adopt child else slot) = field slot
  split
  · exact kept slot child
  · rfl

/-- Every node that is accepted has been pushed. -/
theorem pushed_of_push? {arena grown : Arena} {parent : Nat} {node : Node}
    (pushed : arena.push? parent node = some grown) : arena.Pushed parent node grown := by
  have slot := getElem?_slots_of_push? pushed
  have within : parent ≤ arena.size := by
    rw [push?_eq] at pushed
    exact (Option.ite_none_right_eq_some.1 pushed).1
  constructor
  · exact within
  · rw [push?_eq, if_pos within] at pushed
    cases pushed
    simp [size]
  · intro number
    rw [node?, slot, Option.map_map, comp_adopt Slot.adopt_node, node?]
    split <;> rfl
  · intro number
    rw [parent?, slot, Option.bind_map, comp_adopt Slot.adopt_parent?, parent?]
    split <;> rfl
  · intro number
    by_cases new : number = arena.size
    · rw [children_eq_nil (Nat.le_of_eq new.symm), children, slot, if_pos new]
      show Slot.children (if parent = number then _ else _) = _
      split <;> rfl
    · rw [children, slot, if_neg new, children]
      cases found : arena.slots[number]? with
      | none =>
          have outside := List.getElem?_eq_none_iff.1 found
          rw [← size] at outside
          rw [if_neg (by omega)]
          rfl
      | some slot =>
          show Slot.children (if parent = number then _ else _) = slot.children ++ _
          split
          · rfl
          · rw [List.append_nil]

theorem parent?_eq_none {arena : Arena} {number : Nat} (outside : arena.size ≤ number) :
    arena.parent? number = none := by
  rw [parent?, List.getElem?_eq_none outside]
  rfl

theorem lt_size_of_parent? {arena : Arena} {number parent : Nat}
    (found : arena.parent? number = some parent) : number < arena.size := by
  apply Nat.lt_of_not_le
  intro outside
  rw [parent?_eq_none outside] at found
  contradiction

/-- In a linked arena, parents and children agree, every node but the root has a parent, and no parent comes
after its child. A node may still be its own parent. -/
structure Linked (arena : Arena) : Prop where
  root : 0 < arena.size ∧ arena.parent? 0 = none
  parent : ∀ number < arena.size, number ≠ 0 → ∃ parent ≤ number, arena.parent? number = some parent
  mem_children : ∀ parent child, child ∈ arena.children parent ↔ arena.parent? child = some parent
  increasing : ∀ number, (arena.children number).Pairwise (· < ·)

theorem linked_ofRoot (root : Node) : (ofRoot root).Linked := by
  constructor
  · exact ⟨Nat.zero_lt_one, rfl⟩
  · intro number within positive
    have only : number < 1 := within
    omega
  · intro parent child
    cases parent <;> cases child <;> simp [ofRoot, children, Arena.parent?]
  · intro number
    cases number <;> simp [ofRoot, children]

/-- One more node keeps an arena linked. -/
theorem Linked.push {arena grown : Arena} {parent : Nat} {node : Node} (linked : arena.Linked)
    (pushed : arena.push? parent node = some grown) : grown.Linked := by
  obtain ⟨parent_le, size, -, parent?, children⟩ := pushed_of_push? pushed
  have unknown := parent?_eq_none (Nat.le_refl arena.size)
  constructor
  · have present := linked.root.1
    rw [size, parent?, if_neg (by omega)]
    exact ⟨Nat.succ_pos _, linked.root.2⟩
  · intro number within positive
    rw [parent?]
    split
    · next new => exact ⟨parent, new ▸ parent_le, rfl⟩
    · next old => exact linked.parent number (by omega) positive
  · intro above child
    rw [children, List.mem_append, linked.mem_children, parent?]
    by_cases new : child = arena.size
    · by_cases own : parent = above <;> simp [new, own, unknown]
    · by_cases own : parent = above <;> simp [new, own]
  · intro number
    rw [children, List.pairwise_append]
    refine ⟨linked.increasing number, ?_, ?_⟩
    · split
      · exact List.pairwise_singleton _ _
      · exact List.Pairwise.nil
    · intro child old added new
      have smaller := lt_size_of_parent? ((linked.mem_children number child).1 old)
      have last : added = arena.size := by
        split at new
        · exact List.mem_singleton.1 new
        · contradiction
      omega

end Arena

namespace Addition

def parent : Addition → Nat
  | node parent _ | row parent _ _ => parent

/-- This is the number of nodes in an addition. -/
def count : Addition → Nat
  | node _ _ => 1
  | row _ values _ => values.length + 1

/-- These are the nodes of an addition with their parents. The cells of a row hang on the row, which has the
given number. -/
def branches (number : Nat) : Addition → List Branch
  | node parent child => [⟨parent, child⟩]
  | row parent values line =>
      ⟨parent, ⟨.row, line⟩⟩ :: values.map fun value => ⟨number, ⟨.cell value, line⟩⟩

/-- These are the nodes of additions to an arena of the given size. -/
def allBranches : (size : Nat) → List Addition → List Branch
  | _, [] => []
  | size, addition :: rest => addition.branches size ++ allBranches (size + addition.count) rest

/-- Additions to an arena of the given size are known when each parent is there before its addition. -/
def Known : (size : Nat) → List Addition → Prop
  | _, [] => True
  | size, addition :: rest => addition.parent < size ∧ Known (size + addition.count) rest

instance decidableKnown : (size : Nat) → (additions : List Addition) → Decidable (Known size additions)
  | _, [] => isTrue trivial
  | size, addition :: rest =>
      have := decidableKnown (size + addition.count) rest
      inferInstanceAs (Decidable (addition.parent < size ∧ Known (size + addition.count) rest))

end Addition

namespace Arena

/-- What one more node keeps is kept by all additions. -/
theorem addAll?_induction {motive : Arena → Prop}
    (step : ∀ arena parent node grown, motive arena → arena.push? parent node = some grown →
      motive grown)
    {additions : List Addition} {arena grown : Arena} (start : motive arena)
    (added : arena.addAll? additions = some grown) : motive grown := by
  have cells (values : List Text) {row line : Nat} {arena grown : Arena} (start : motive arena)
      (pushed : arena.pushCells? row values line = some grown) : motive grown := by
    induction values generalizing arena with
    | nil =>
        cases pushed
        exact start
    | cons value values inductionHypothesis =>
        obtain ⟨next, first, rest⟩ := Option.bind_eq_some_iff.1 pushed
        exact inductionHypothesis (step _ _ _ _ start first) rest
  induction additions generalizing arena with
  | nil =>
      cases added
      exact start
  | cons addition additions inductionHypothesis =>
      obtain ⟨next, first, rest⟩ := Option.bind_eq_some_iff.1 added
      refine inductionHypothesis ?_ rest
      cases addition with
      | node parent node => exact step _ _ _ _ start first
      | row parent values line =>
          obtain ⟨withRow, row, others⟩ := Option.bind_eq_some_iff.1 first
          exact cells values (step _ _ _ _ start row) others

/-- Whatever is added to a root stays linked. -/
theorem linked_of_addAll? {root : Node} {additions : List Addition} {arena : Arena}
    (added : (ofRoot root).addAll? additions = some arena) : arena.Linked :=
  addAll?_induction (fun _ _ _ _ linked pushed => linked.push pushed) (linked_ofRoot root) added

/-- In an arena with earlier parents, no node is its own parent. -/
def Earlier (arena : Arena) : Prop :=
  ∀ number parent, arena.parent? number = some parent → parent < number

theorem earlier_ofRoot (root : Node) : (ofRoot root).Earlier := by
  intro number parent found
  cases number <;> simp [ofRoot, Arena.parent?] at found

/-- A new node keeps parents earlier exactly when its own parent was there before it. -/
theorem earlier_push_iff {arena grown : Arena} {parent : Nat} {node : Node}
    (pushed : arena.push? parent node = some grown) :
    grown.Earlier ↔ arena.Earlier ∧ parent < arena.size := by
  have parents := (pushed_of_push? pushed).parent?
  constructor
  · intro earlier
    constructor
    · intro number above found
      have within := lt_size_of_parent? found
      apply earlier number above
      rw [parents, if_neg (by omega), found]
    · apply earlier arena.size parent
      rw [parents, if_pos rfl]
  · intro given number above found
    rw [parents] at found
    split at found
    · next new =>
        cases found
        exact new ▸ given.2
    · exact given.1 number above found

/-- Cells under a row that is there are always added, and they have an earlier parent. -/
theorem exists_pushCells? {arena : Arena} {row : Nat} (known : row < arena.size)
    (values : List Text) (line : Nat) :
    ∃ grown, arena.pushCells? row values line = some grown ∧
      grown.size = arena.size + values.length ∧ (grown.Earlier ↔ arena.Earlier) := by
  induction values generalizing arena with
  | nil => exact ⟨arena, rfl, rfl, Iff.rfl⟩
  | cons value values inductionHypothesis =>
      have accepted : arena.push? row ⟨.cell value, line⟩ ≠ none := by
        rw [ne_eq, push?_eq_none_iff]
        omega
      obtain ⟨next, pushed⟩ := Option.ne_none_iff_exists'.1 accepted
      have size := (pushed_of_push? pushed).size
      have earlier := earlier_push_iff pushed
      obtain ⟨grown, run, grownSize, grownEarlier⟩ := @inductionHypothesis next (by omega)
      refine ⟨grown, ?_, ?_, ?_⟩
      · rw [pushCells?, List.foldlM_cons, pushed]
        exact run
      · rw [grownSize, size, List.length_cons]
        omega
      · rw [grownEarlier, earlier, and_iff_left known]

/-- An addition is accepted when its parent is at most the number that its first node will have. It keeps
earlier parents when its own parent is there before it. -/
theorem exists_add? {arena : Arena} {addition : Addition} (within : addition.parent ≤ arena.size) :
    ∃ grown, arena.add? addition = some grown ∧ grown.size = arena.size + addition.count ∧
      (grown.Earlier ↔ arena.Earlier ∧ addition.parent < arena.size) := by
  have accepted (node : Node) : ∃ grown, arena.push? addition.parent node = some grown := by
    apply Option.ne_none_iff_exists'.1
    rw [ne_eq, push?_eq_none_iff]
    omega
  cases addition with
  | node parent node =>
      obtain ⟨grown, pushed⟩ := accepted node
      exact ⟨grown, pushed, (pushed_of_push? pushed).size, earlier_push_iff pushed⟩
  | row parent values line =>
      obtain ⟨withRow, pushed⟩ := accepted ⟨.row, line⟩
      have size := (pushed_of_push? pushed).size
      obtain ⟨grown, cells, grownSize, grownEarlier⟩ :=
        @exists_pushCells? withRow arena.size (by omega) values line
      refine ⟨grown, ?_, ?_, ?_⟩
      · rw [add?]
        show (arena.push? parent ⟨.row, line⟩).bind _ = _
        rw [show arena.push? parent ⟨.row, line⟩ = some withRow from pushed]
        exact cells
      · rw [grownSize, size, Addition.count]
        omega
      · rw [grownEarlier, earlier_push_iff pushed]

/-- An addition is refused exactly when its parent would come after its first node. -/
theorem add?_eq_none_iff (arena : Arena) (addition : Addition) :
    arena.add? addition = none ↔ arena.size < addition.parent := by
  constructor
  · intro refused
    apply Nat.lt_of_not_le
    intro within
    obtain ⟨grown, accepted, -⟩ := exists_add? within
    rw [refused] at accepted
    contradiction
  · intro beyond
    cases addition with
    | node parent node => exact (push?_eq_none_iff arena parent node).2 beyond
    | row parent values line =>
        have refused := (push?_eq_none_iff arena parent ⟨.row, line⟩).2 beyond
        rw [add?, refused]
        rfl

/-- An addition that is accepted adds its nodes, and parents stay earlier when its own was known. -/
theorem add?_of_eq_some {arena grown : Arena} {addition : Addition}
    (added : arena.add? addition = some grown) :
    addition.parent ≤ arena.size ∧ grown.size = arena.size + addition.count ∧
      (grown.Earlier ↔ arena.Earlier ∧ addition.parent < arena.size) := by
  have within : addition.parent ≤ arena.size := by
    apply Nat.le_of_not_lt
    intro beyond
    rw [(add?_eq_none_iff arena addition).2 beyond] at added
    contradiction
  obtain ⟨other, same, facts⟩ := exists_add? within
  rw [added] at same
  cases same
  exact ⟨within, facts⟩

/-- Additions keep earlier parents exactly when they are known. -/
theorem earlier_addAll?_iff {arena grown : Arena} {additions : List Addition}
    (added : arena.addAll? additions = some grown) :
    grown.Earlier ↔ arena.Earlier ∧ Addition.Known arena.size additions := by
  induction additions generalizing arena with
  | nil =>
      cases added
      exact (and_iff_left trivial).symm
  | cons addition additions inductionHypothesis =>
      obtain ⟨next, first, rest⟩ := Option.bind_eq_some_iff.1 added
      obtain ⟨-, size, earlier⟩ := add?_of_eq_some first
      rw [inductionHypothesis rest, earlier, size, Addition.Known, and_assoc]

/-- Known additions are all accepted. -/
theorem exists_addAll?_of_known {arena : Arena} {additions : List Addition}
    (known : Addition.Known arena.size additions) :
    ∃ grown, arena.addAll? additions = some grown := by
  induction additions generalizing arena with
  | nil => exact ⟨arena, rfl⟩
  | cons addition additions inductionHypothesis =>
      obtain ⟨next, first, size, -⟩ := exists_add? (Nat.le_of_lt known.1)
      obtain ⟨grown, rest⟩ := @inductionHypothesis next (size ▸ known.2)
      refine ⟨grown, ?_⟩
      rw [addAll?, List.foldlM_cons, first]
      exact rest

/-- A new node adds its branch. -/
theorem branches_of_push? {arena grown : Arena} {parent : Nat} {node : Node}
    (pushed : arena.push? parent node = some grown) :
    grown.slots.map Slot.branch = arena.slots.map Slot.branch ++ [⟨parent, node⟩] := by
  rw [push?] at pushed
  obtain ⟨within, same⟩ := Option.ite_none_right_eq_some.1 pushed
  cases same
  obtain ⟨before, slot, behind, split, -, adopted⟩ :=
    List.exists_of_modify (fun slot => slot.adopt arena.size) within
  have whole : arena.slots.map Slot.branch ++ [⟨parent, node⟩] =
      (before ++ slot :: behind).map Slot.branch := by
    rw [← split, List.map_append]
    rfl
  rw [adopted, whole, List.map_append, List.map_append]
  rfl

/-- Cells add one branch for each value. -/
theorem branches_of_pushCells? {arena grown : Arena} {row line : Nat} {values : List Text}
    (pushed : arena.pushCells? row values line = some grown) :
    grown.slots.map Slot.branch = arena.slots.map Slot.branch ++
      values.map fun value => ⟨row, ⟨.cell value, line⟩⟩ := by
  induction values generalizing arena with
  | nil =>
      cases pushed
      rw [List.map_nil, List.append_nil]
  | cons value values inductionHypothesis =>
      obtain ⟨next, first, rest⟩ := Option.bind_eq_some_iff.1 pushed
      rw [inductionHypothesis rest, branches_of_push? first, List.append_assoc, List.map_cons,
        List.singleton_append]

/-- An addition adds its branches. -/
theorem branches_of_add? {arena grown : Arena} {addition : Addition}
    (added : arena.add? addition = some grown) :
    grown.slots.map Slot.branch = arena.slots.map Slot.branch ++ addition.branches arena.size := by
  cases addition with
  | node parent node => exact branches_of_push? added
  | row parent values line =>
      obtain ⟨withRow, row, cells⟩ := Option.bind_eq_some_iff.1 added
      rw [branches_of_pushCells? cells, branches_of_push? row, List.append_assoc, Addition.branches,
        List.singleton_append]

/-- Whatever the parents are, accepted additions put their nodes behind those that are there. -/
theorem branches_of_addAll? {arena grown : Arena} {additions : List Addition}
    (added : arena.addAll? additions = some grown) :
    grown.slots.map Slot.branch =
      arena.slots.map Slot.branch ++ Addition.allBranches arena.size additions := by
  induction additions generalizing arena with
  | nil =>
      cases added
      rw [Addition.allBranches, List.append_nil]
  | cons addition additions inductionHypothesis =>
      obtain ⟨next, first, rest⟩ := Option.bind_eq_some_iff.1 added
      obtain ⟨-, size, -⟩ := add?_of_eq_some first
      rw [inductionHypothesis rest, branches_of_add? first, size, List.append_assoc,
        Addition.allBranches]

/-- An arena that is built from a root holds the root and the nodes of all additions. -/
theorem holds_of_addAll? {root : Node} {additions : List Addition} {arena : Arena}
    (added : (ofRoot root).addAll? additions = some arena) :
    arena.node? 0 = some root ∧
      arena.slots.tail.map Slot.branch = Addition.allBranches 1 additions := by
  have branches := branches_of_addAll? added
  constructor
  · have first := congrArg (fun found => found.head?.map Branch.node) branches
    rw [node?, ← List.head?_eq_getElem?]
    rw [List.head?_map, Option.map_map] at first
    exact first
  · rw [List.map_tail, branches]
    rfl

end Arena

end FeatureLint
