import FeatureLint.Text

/-!
This file holds file paths. A path is shown exactly as it was written, but two paths are the same,
and are put in order, by their components: repeated and trailing slashes and inner dots do not count.
-/

namespace FeatureLint

structure Path where
  text : Text
deriving DecidableEq, Repr

namespace Path

inductive Component where
  | root
  | current
  | parent
  | name (text : Text)
deriving DecidableEq, Repr

namespace Component

/-- A piece between two slashes is a component unless it is empty or a dot. -/
def ofPiece? (piece : Text) : Option Component :=
  if piece = [] ∨ piece = ['.'] then none
  else if piece = ['.', '.'] then some parent
  else some (name piece)

/-- The root comes before the dot, the dot before the parent and the parent before every name. Names
are compared character by character. -/
def rank : Component → List Nat
  | root => [0]
  | current => [1]
  | parent => [2]
  | name text => 3 :: text.map Char.toNat

end Component

/-- Only at the start of a path does an empty piece mean the root and a dot count. -/
def leadOf (piece : Text) (alone : Bool) : Option Component :=
  if piece = [] then (if alone then none else some .root)
  else if piece = ['.'] then some .current
  else Component.ofPiece? piece

def components (path : Path) : List Component :=
  match Text.cutAt '/' path.text with
  | [] => []
  | first :: rest => (leadOf first rest.isEmpty).toList ++ rest.filterMap Component.ofPiece?

/-- Two paths are alike when they have the same components. -/
def alike (first second : Path) : Bool :=
  first.components = second.components

theorem alike_iff (first second : Path) :
    first.alike second = true ↔ first.components = second.components := by
  simp [alike]

def rank (path : Path) : List (List Nat) :=
  path.components.map Component.rank

/-- This is the order of paths by components. -/
def le (first second : Path) : Bool :=
  !List.lex second.rank first.rank fun left right => List.lex left right Nat.blt

def isAbsolute (path : Path) : Bool :=
  Text.startsWith path.text ['/']

/-- This function reads one path as seen from another. An absolute path does not depend on where it
is seen from. -/
def join (base path : Path) : Path :=
  if path.isAbsolute then path
  else if base.text.isEmpty || base.text.getLast? = some '/' then ⟨base.text ++ path.text⟩
  else ⟨base.text ++ '/' :: path.text⟩

/-- This is the part of a path that cannot be taken away piece by piece: its root or its first dot. -/
def anchor (path : Path) : Text :=
  if path.isAbsolute then ['/']
  else if path.text = ['.'] || Text.startsWith path.text ['.', '/'] then ['.']
  else []

def isFilling (piece : Text) : Bool :=
  piece = [] || piece = ['.']

/-- These are the pieces between the slashes after the anchor. -/
def pieces (path : Path) : List Text :=
  Text.cutAt '/' (path.text.drop path.anchor.length)

/-- This function takes the last component away and fails when there is none to take. -/
def parent? (path : Path) : Option Path :=
  match path.pieces.reverse.dropWhile isFilling with
  | [] => if path.anchor = ['.'] then some ⟨[]⟩ else none
  | _ :: before =>
      some ⟨path.anchor ++ Text.joinWith ['/'] (before.dropWhile isFilling).reverse⟩

theorem anchor_length_le (path : Path) : path.anchor.length ≤ path.text.length := by
  unfold anchor
  split
  · next absolute =>
      obtain ⟨rest, eq⟩ := (Text.startsWith_iff _ _).1 absolute
      simp [eq]
  · split
    · next dot =>
        rcases Bool.or_eq_true _ _ ▸ dot with alone | lead
        · simp [of_decide_eq_true alone]
        · obtain ⟨rest, eq⟩ := (Text.startsWith_iff _ _).1 lead
          simp [eq]
    · simp

/-- What is left of the pieces is shorter when one that counts was taken away. -/
theorem length_before {pieces before : List Text} {last : Text}
    (found : pieces.reverse.dropWhile isFilling = last :: before) :
    (Text.joinWith ['/'] (before.dropWhile isFilling).reverse).length <
      (Text.joinWith ['/'] pieces).length := by
  have counts : isFilling last = false := by
    have head := List.head?_dropWhile_not isFilling pieces.reverse
    rwa [found] at head
  have nonempty : 0 < last.length := by
    cases last with
    | nil => simp [isFilling] at counts
    | cons _ _ => exact Nat.succ_pos _
  have behind := List.takeWhile_append_dropWhile (p := isFilling) (l := pieces.reverse)
  have kept := List.takeWhile_append_dropWhile (p := isFilling) (l := before)
  rw [found] at behind
  have whole : pieces = ((before.dropWhile isFilling).reverse ++
      (before.takeWhile isFilling).reverse) ++
        last :: (pieces.reverse.takeWhile isFilling).reverse := by
    rw [← List.reverse_append, kept]
    simpa using (congrArg List.reverse behind).symm
  have shorter := Text.length_joinWith_le_append ['/'] (before.dropWhile isFilling).reverse
    (before.takeWhile isFilling).reverse
  have longer := Text.length_joinWith_append ['/']
    ((before.dropWhile isFilling).reverse ++ (before.takeWhile isFilling).reverse) last
    (pieces.reverse.takeWhile isFilling).reverse
  rw [← whole] at longer
  omega

/-- A path is longer than its parent, so taking components away comes to an end. -/
theorem length_parent? {path parent : Path} (found : path.parent? = some parent) :
    parent.text.length < path.text.length := by
  have anchored := path.anchor_length_le
  unfold parent? at found
  split at found
  · split at found
    · next dot =>
        cases found
        rw [dot] at anchored
        exact anchored
    · contradiction
  · next last before rest =>
      cases found
      have shorter := length_before rest
      rw [pieces, Text.joinWith_cutAt, List.length_drop] at shorter
      rw [List.length_append]
      omega

/-- These are a path, its parent, the parent of that, and so on. -/
def lineage (path : Path) : List Path :=
  match _found : path.parent? with
  | none => [path]
  | some parent => path :: parent.lineage
termination_by path.text.length
decreasing_by exact length_parent? _found

/-- The extension of a file name follows its last dot, and a name whose only dot comes first has
none. -/
def extensionOfName? (name : Text) : Option Text :=
  match Text.cutAt '.' name with
  | [] | [_] => none
  | [[], _] => none
  | _ :: second :: rest => (second :: rest).getLast?

def extension? (path : Path) : Option Text :=
  match path.components.getLast? with
  | some (.name name) => extensionOfName? name
  | _ => none

end Path

end FeatureLint
