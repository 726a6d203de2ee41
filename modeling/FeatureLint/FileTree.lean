import FeatureLint.Path

/-!
This file holds a tree of files and the operations of the library on it. A path is followed piece by
piece from a place in the tree, so that every piece but the last must name a directory.
-/

namespace FeatureLint

/-- A file whose bytes are no UTF-8 has no text. -/
inductive Entry where
  | file (text? : Option Text)
  | directory (entries : List (Text × Entry))

inductive FileError where
  | notFound
  | alreadyExists
  | notDirectory
  | isDirectory
  | notText
deriving DecidableEq, Repr

def FileError.message : FileError → Text
  | notFound => "No such file or directory (os error 2)".toList
  | alreadyExists => "File exists (os error 17)".toList
  | notDirectory => "Not a directory (os error 20)".toList
  | isDirectory => "Is a directory (os error 21)".toList
  | notText => "stream did not contain valid UTF-8".toList

/-- A place is given by the names on the way from the root. -/
abbrev Place := List Text

/-- A directory has at most one entry of a name. -/
abbrev Listing := List (Text × Entry)

namespace Listing

def lookup? (name : Text) : Listing → Option Entry
  | [] => none
  | (known, entry) :: rest => if known = name then some entry else lookup? name rest

/-- This function gives a name an entry, in place of the old one if there is one. -/
def set (name : Text) (entry : Entry) : Listing → Listing
  | [] => [(name, entry)]
  | (known, old) :: rest =>
      if known = name then (known, entry) :: rest else (known, old) :: set name entry rest

def entryAt? : Place → Listing → Option Entry
  | [], listing => some (.directory listing)
  | [name], listing => lookup? name listing
  | name :: place, listing =>
      match lookup? name listing with
      | some (.directory below) => entryAt? place below
      | _ => none

/-- This function puts an entry at a place whose directory exists. -/
def put (entry : Entry) : Place → Listing → Listing
  | [], listing => listing
  | [name], listing => set name entry listing
  | name :: place, listing =>
      match lookup? name listing with
      | some (.directory below) => set name (.directory (put entry place below)) listing
      | _ => listing

end Listing

/-- A file tree has a root directory and a place from which relative paths are followed. -/
structure FileTree where
  root : Listing
  workingPlace : Place

namespace FileTree

def entryAt? (tree : FileTree) (place : Place) : Option Entry :=
  Listing.entryAt? place tree.root

/-- This function follows one piece of a path from a place. -/
def step (tree : FileTree) (place : Place) (piece : Text) : Except FileError Place :=
  match tree.entryAt? place with
  | none => .error .notFound
  | some (.file _) => .error .notDirectory
  | some (.directory listing) =>
      if Path.isFilling piece then .ok place
      else if piece = ['.', '.'] then .ok place.dropLast
      else if (Listing.lookup? piece listing).isSome then .ok (place ++ [piece])
      else .error .notFound

def follow (tree : FileTree) : Place → List Text → Except FileError Place
  | place, [] => .ok place
  | place, piece :: pieces =>
      match tree.step place piece with
      | .error error => .error error
      | .ok next => tree.follow next pieces

/-- Absolute paths start at the root. -/
def startOf (tree : FileTree) (path : Path) : Place :=
  if path.isAbsolute then [] else tree.workingPlace

/-- This function finds the entry at a path. -/
def find (tree : FileTree) (path : Path) : Except FileError Entry :=
  if path.text.isEmpty then .error .notFound
  else
    match tree.follow (tree.startOf path) (Text.cutAt '/' path.text) with
    | .error error => .error error
    | .ok place =>
        match tree.entryAt? place with
        | none => .error .notFound
        | some entry => .ok entry

def contains (tree : FileTree) (path : Path) : Bool :=
  match tree.find path with
  | .ok _ => true
  | .error _ => false

def isFile (tree : FileTree) (path : Path) : Bool :=
  match tree.find path with
  | .ok (.file _) => true
  | _ => false

def isDirectory (tree : FileTree) (path : Path) : Bool :=
  match tree.find path with
  | .ok (.directory _) => true
  | _ => false

/-- This function reads the text of a file. -/
def readText (tree : FileTree) (path : Path) : Except FileError Text :=
  match tree.find path with
  | .error error => .error error
  | .ok (.directory _) => .error .isDirectory
  | .ok (.file none) => .error .notText
  | .ok (.file (some text)) => .ok text

/-- The end of a path that is to be written is an existing directory, or a name in a directory that
may carry a slash. -/
inductive Target where
  | directory
  | name (place : Place) (name : Text) (slash : Bool)

/-- This function finds out what the last piece of a path stands for. -/
def target (tree : FileTree) (path : Path) : Except FileError Target :=
  if path.text.isEmpty then .error .notFound
  else
    let pieces := Text.cutAt '/' path.text
    match pieces.reverse.dropWhile List.isEmpty with
    | [] => .ok .directory
    | last :: before =>
        match tree.follow (tree.startOf path) (before.reverse ++ [['.']]) with
        | .error error => .error error
        | .ok place =>
            if last = ['.'] || last = ['.', '.'] then .ok .directory
            else .ok (.name place last (pieces.getLast? = some []))

def put (tree : FileTree) (place : Place) (entry : Entry) : FileTree :=
  { tree with root := Listing.put entry place tree.root }

/-- This function writes a file, whether it is there already or not. -/
def write (tree : FileTree) (path : Path) (text : Text) : Except FileError FileTree :=
  match tree.target path with
  | .error error => .error error
  | .ok .directory => .error .isDirectory
  | .ok (.name place name slash) =>
      if slash then .error .isDirectory
      else
        match tree.entryAt? (place ++ [name]) with
        | some (.directory _) => .error .isDirectory
        | _ => .ok (tree.put (place ++ [name]) (.file (some text)))

def makeDirectory (tree : FileTree) (path : Path) : Except FileError FileTree :=
  match tree.target path with
  | .error error => .error error
  | .ok .directory => .error .alreadyExists
  | .ok (.name place name _) =>
      match tree.entryAt? (place ++ [name]) with
      | some _ => .error .alreadyExists
      | none => .ok (tree.put (place ++ [name]) (.directory []))

/-- This function makes a directory and, before it, those of its ancestors that are missing. The list
starts with the directory and goes on with its ancestors. -/
def makeLineage (tree : FileTree) : List Path → Except FileError FileTree
  | [] => .ok tree
  | path :: ancestors =>
      if path.text.isEmpty then .ok tree
      else
        match tree.makeDirectory path with
        | .ok made => .ok made
        | .error .notFound =>
            match tree.makeLineage ancestors with
            | .error error => .error error
            | .ok grown =>
                match grown.makeDirectory path with
                | .ok made => .ok made
                | .error error => if grown.isDirectory path then .ok grown else .error error
        | .error error => if tree.isDirectory path then .ok tree else .error error

def makeDirectories (tree : FileTree) (path : Path) : Except FileError FileTree :=
  tree.makeLineage path.lineage

/-- This is the absolute path of the working place. -/
def workingPath (tree : FileTree) : Path :=
  ⟨'/' :: Text.joinWith ['/'] tree.workingPlace⟩

end FileTree

end FeatureLint
