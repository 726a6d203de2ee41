import FeatureLint.Path

/-!
This file holds documents, the trees that linters look at. Nodes are numbered in the order in which
they were attached, the root is number zero, and every other node knows its parent, which is always
an earlier node. Children, ancestors and the walk over the whole tree are read off the parents.
-/

namespace FeatureLint

/-- A kind says what a node is and carries the text that belongs to it. -/
inductive Kind where
  | file (path : Path)
  | feature (name : Text)
  | rule (name : Text)
  | background (name : Text)
  | scenario (name : Text)
  | outline (name : Text)
  | examples (name : Text)
  | row
  | cell (value : Text)
deriving DecidableEq, Repr

/-- A tag is a kind without its text. -/
inductive Tag where
  | file
  | feature
  | rule
  | background
  | scenario
  | outline
  | examples
  | row
  | cell
deriving DecidableEq, Repr

def Tag.label : Tag → Text
  | file => "file".toList
  | feature => "feature".toList
  | rule => "rule".toList
  | background => "background".toList
  | scenario => "scenario".toList
  | outline => "scenario outline".toList
  | examples => "examples".toList
  | row => "row".toList
  | cell => "cell".toList

namespace Kind

def tag : Kind → Tag
  | file _ => .file
  | feature _ => .feature
  | rule _ => .rule
  | background _ => .background
  | scenario _ => .scenario
  | outline _ => .outline
  | examples _ => .examples
  | row => .row
  | cell _ => .cell

def name? : Kind → Option Text
  | feature name | rule name | background name | scenario name | outline name | examples name =>
      some name
  | file _ | row | cell _ => none

def value? : Kind → Option Text
  | cell value => some value
  | _ => none

def path? : Kind → Option Path
  | file path => some path
  | _ => none

end Kind

structure Node where
  kind : Kind
  line : Nat
deriving DecidableEq, Repr

/-- A branch is a node with the number of its parent. -/
structure Branch where
  parent : Nat
  node : Node
deriving DecidableEq, Repr

/-- Branches that are numbered from `next` on are grounded when each parent has a smaller number
than its child. -/
def Grounded : (next : Nat) → List Branch → Prop
  | _, [] => True
  | next, branch :: rest => branch.parent < next ∧ Grounded (next + 1) rest

theorem grounded_append (next : Nat) (first second : List Branch) :
    Grounded next (first ++ second) ↔
      Grounded next first ∧ Grounded (next + first.length) second := by
  induction first generalizing next with
  | nil => simp [Grounded]
  | cons branch rest inductionHypothesis =>
      simp only [List.cons_append, Grounded, inductionHypothesis, List.length_cons, and_assoc]
      rw [show next + 1 + rest.length = next + (rest.length + 1) by omega]

theorem Grounded.parent_lt {next : Nat} {branches : List Branch} (grounded : Grounded next branches)
    {index : Nat} {branch : Branch} (found : branches[index]? = some branch) :
    branch.parent < next + index := by
  induction branches generalizing next index with
  | nil => simp at found
  | cons first rest inductionHypothesis =>
      cases index with
      | zero =>
          simp only [List.getElem?_cons_zero, Option.some.injEq] at found
          subst found
          exact grounded.1
      | succ index =>
          have later := inductionHypothesis grounded.2 (by simpa using found)
          omega

structure Document where
  root : Node
  branches : List Branch
  grounded : Grounded 1 branches

namespace Document

/-- This is the number of nodes. -/
def size (document : Document) : Nat :=
  document.branches.length + 1

def node? (document : Document) : Nat → Option Node
  | 0 => some document.root
  | number + 1 => document.branches[number]?.map Branch.node

def parent? (document : Document) : Nat → Option Nat
  | 0 => none
  | number + 1 => document.branches[number]?.map Branch.parent

theorem lt_of_parent? {document : Document} {number parent : Nat}
    (found : document.parent? number = some parent) : parent < number := by
  cases number with
  | zero => simp [parent?] at found
  | succ number =>
      obtain ⟨branch, here, rfl⟩ := Option.map_eq_some_iff.1 found
      have smaller := document.grounded.parent_lt here
      omega

def contains (document : Document) (number : Nat) : Bool :=
  number < document.size

def kind? (document : Document) (number : Nat) : Option Kind :=
  (document.node? number).map Node.kind

def line? (document : Document) (number : Nat) : Option Nat :=
  (document.node? number).map Node.line

/-- This test asks for the tag of a node. -/
def is (document : Document) (number : Nat) (tag : Tag) : Bool :=
  (document.kind? number).map Kind.tag = some tag

def name? (document : Document) (number : Nat) : Option Text :=
  (document.kind? number).bind Kind.name?

/-- This is the path of the root when the root is a file. -/
def path? (document : Document) : Option Path :=
  document.root.kind.path?

/-- These are the children of a node in the order in which they were attached. -/
def children (document : Document) (number : Nat) : List Nat :=
  (document.branches.zipIdx 1).filterMap fun (branch, child) =>
    if branch.parent = number then some child else none

/-- These are the ancestors of a node from its parent up to the root. -/
def ancestors (document : Document) (number : Nat) : List Nat :=
  match _found : document.parent? number with
  | none => []
  | some parent => parent :: document.ancestors parent
termination_by number
decreasing_by exact lt_of_parent? _found

/-- This is the nearest ancestor with the given tag. -/
def ancestor? (document : Document) (number : Nat) (tag : Tag) : Option Nat :=
  (document.ancestors number).find? fun ancestor => document.is ancestor tag

/-- This is the file that a node belongs to, and a file belongs to itself. -/
def file? (document : Document) (number : Nat) : Option Nat :=
  if document.is number .file then some number else document.ancestor? number .file

def childrenWith (document : Document) (number : Nat) (tag : Tag) : List Nat :=
  (document.children number).filter fun child => document.is child tag

/-- These are the values of the cells under a node. -/
def cells (document : Document) (number : Nat) : List Text :=
  (document.childrenWith number .cell).filterMap fun child =>
    (document.kind? child).bind Kind.value?

/-- This function visits at most `limit` nodes from a stack of nodes, and the children of each node
come right after it. -/
def walkFrom (document : Document) : (limit : Nat) → (stack : List Nat) → List Nat
  | _, [] => []
  | 0, _ => []
  | limit + 1, number :: stack =>
      number :: document.walkFrom limit (document.children number ++ stack)

/-- The walk visits parents before children and children in order. Every node is visited once, so the
number of nodes bounds the walk. -/
def walk (document : Document) : List Nat :=
  document.walkFrom document.size [0]

end Document

end FeatureLint
