import FeatureLint.Document

/-!
This file builds documents node by node. An arena keeps every node in a slot of its own, together with the
numbers of its parent and of its children. Nothing but the parents given by the caller holds the slots together,
so an arena need not be a tree: a new node has its slot before its parent is looked up, and a node that is given
its own number as parent becomes its own child.
-/

namespace FeatureLint

structure Slot where
  node : Node
  /-- The root has no parent. -/
  parent? : Option Nat
  /-- These are the children in the order in which they were added. -/
  children : List Nat
deriving DecidableEq, Repr

/-- This function adds the number of a new child. -/
def Slot.adopt (slot : Slot) (child : Nat) : Slot :=
  { slot with children := slot.children ++ [child] }

@[simp] theorem Slot.adopt_node (slot : Slot) (child : Nat) :
    (slot.adopt child).node = slot.node := rfl

@[simp] theorem Slot.adopt_parent? (slot : Slot) (child : Nat) :
    (slot.adopt child).parent? = slot.parent? := rfl

@[simp] theorem Slot.adopt_children (slot : Slot) (child : Nat) :
    (slot.adopt child).children = slot.children ++ [child] := rfl

/-- The number of a node is the place of its slot. -/
structure Arena where
  slots : List Slot
deriving DecidableEq, Repr

/-- An addition puts a node, or a row with one cell for each value, under a parent. -/
inductive Addition where
  | node (parent : Nat) (node : Node)
  | row (parent : Nat) (values : List Text) (line : Nat)
deriving DecidableEq, Repr

namespace Arena

def ofRoot (root : Node) : Arena :=
  ⟨[⟨root, none, []⟩]⟩

/-- This is the number of nodes. -/
def size (arena : Arena) : Nat :=
  arena.slots.length

def isEmpty (arena : Arena) : Bool :=
  arena.size ≤ 1

/-- This function makes a slot for a node and then adds its number to the children of its parent. It fails when
there is no slot with the number of the parent. -/
def push? (arena : Arena) (parent : Nat) (node : Node) : Option Arena :=
  let slots := arena.slots ++ [⟨node, some parent, []⟩]
  if parent < slots.length then
    some ⟨slots.modify parent fun slot => slot.adopt arena.size⟩
  else
    none

/-- This function adds the cells of a row. -/
def pushCells? (arena : Arena) (row : Nat) (values : List Text) (line : Nat) : Option Arena :=
  values.foldlM (fun grown value => grown.push? row ⟨.cell value, line⟩) arena

def add? (arena : Arena) : Addition → Option Arena
  | .node parent node => arena.push? parent node
  | .row parent values line => do
      let withRow ← arena.push? parent ⟨.row, line⟩
      withRow.pushCells? arena.size values line

def addAll? (arena : Arena) (additions : List Addition) : Option Arena :=
  additions.foldlM add? arena

def node? (arena : Arena) (number : Nat) : Option Node :=
  arena.slots[number]?.map Slot.node

def parent? (arena : Arena) (number : Nat) : Option Nat :=
  arena.slots[number]?.bind Slot.parent?

def children (arena : Arena) (number : Nat) : List Nat :=
  (arena.slots[number]?.map Slot.children).getD []

/-- This test asks for the tag of a node. -/
def is (arena : Arena) (number : Nat) (tag : Tag) : Bool :=
  (arena.node? number).map (fun node => node.kind.tag) = some tag

/-- This function visits the node on top of the stack, which is its last element, and puts the children of the
node on the stack so that the first child is on top. -/
def next? (arena : Arena) (stack : List Nat) : Option (Nat × List Nat) :=
  stack.getLast?.map fun number =>
    (number, stack.dropLast ++ (arena.children number).reverse)

/-- These are the first nodes that are visited from a stack, as many as the limit allows. -/
def visits (arena : Arena) : (limit : Nat) → (stack : List Nat) → List Nat
  | 0, _ => []
  | limit + 1, stack =>
      match arena.next? stack with
      | none => []
      | some (number, after) => number :: arena.visits limit after

/-- The walk starts at the root. A node that hangs together with the root is visited once, so the number of
nodes bounds the walk. -/
def walk (arena : Arena) : List Nat :=
  arena.visits arena.size [0]

/-- These are the first ancestors of a node from its parent upwards, as many as the limit allows. -/
def climb (arena : Arena) : (limit number : Nat) → List Nat
  | 0, _ => []
  | limit + 1, number =>
      match arena.parent? number with
      | none => []
      | some parent => parent :: arena.climb limit parent

/-- A node has fewer ancestors than the arena has nodes unless they never end. -/
def ancestors (arena : Arena) (number : Nat) : List Nat :=
  arena.climb arena.size number

/-- This is the nearest ancestor with the given tag. -/
def ancestor? (arena : Arena) (number : Nat) (tag : Tag) : Option Nat :=
  (arena.ancestors number).find? fun ancestor => arena.is ancestor tag

/-- This is the file that a node belongs to, and a file belongs to itself. -/
def file? (arena : Arena) (number : Nat) : Option Nat :=
  if arena.is number .file then some number else arena.ancestor? number .file

end Arena

instance decidableGrounded : (next : Nat) → (branches : List Branch) → Decidable (Grounded next branches)
  | _, [] => isTrue trivial
  | next, branch :: rest =>
      have := decidableGrounded (next + 1) rest
      inferInstanceAs (Decidable (branch.parent < next ∧ Grounded (next + 1) rest))

/-- Every slot but that of the root stands for a branch. -/
def Slot.branch (slot : Slot) : Branch :=
  ⟨slot.parent?.getD 0, slot.node⟩

/-- This is the document in an arena. There is none when a node does not have an earlier parent. -/
def Arena.document? (arena : Arena) : Option Document :=
  match arena.slots with
  | [] => none
  | root :: rest =>
      if grounded : Grounded 1 (rest.map Slot.branch) then
        some ⟨root.node, rest.map Slot.branch, grounded⟩
      else
        none

/-- This is the arena of a document. -/
def Document.arena (document : Document) : Arena :=
  ⟨⟨document.root, none, document.children 0⟩ ::
    (document.branches.zipIdx 1).map fun (branch, number) =>
      ⟨branch.node, some branch.parent, document.children number⟩⟩

end FeatureLint
