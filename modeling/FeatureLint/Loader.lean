import FeatureLint.Feature.Parser
import FeatureLint.FileTree

/-!
This file loads feature files. Files are taken as they are named, and a directory stands for all files
below it that have the right extension, in the order of their paths.
-/

namespace FeatureLint

inductive LoadError where
  | unreadable (path : Path) (cause : FileError)
  | malformed (path : Path) (text : Text) (error : ParseError)
  | missing (path : Path)
deriving DecidableEq, Repr

namespace LoadError

def path : LoadError → Path
  | unreadable path _ | malformed path _ _ | missing path => path

def message : LoadError → Text
  | unreadable path cause =>
      "IO error reading ".toList ++ path.text ++ ": ".toList ++ cause.message
  | malformed path _ error =>
      "Parse error in ".toList ++ path.text ++ ": ".toList ++ error.message
  | missing path => "No such file or directory: ".toList ++ path.text

end LoadError

mutual

/-- These are the files at and below an entry that have the given extension. -/
def Entry.filesWith (extension : Text) (path : Path) : Entry → List Path
  | .file _ => if path.extension? = some extension then [path] else []
  | .directory listing => Listing.filesWith extension path listing

/-- These are the files of a directory and of the directories below it. -/
def Listing.filesWith (extension : Text) (path : Path) : Listing → List Path
  | [] => []
  | (name, entry) :: rest =>
      entry.filesWith extension (path.join ⟨name⟩) ++ Listing.filesWith extension path rest

end

namespace Loader

/-- This function finds the files that one path stands for. -/
def filesAt (tree : FileTree) (extension : Text) (path : Path) : Except LoadError (List Path) :=
  match tree.find path with
  | .ok (.file _) => .ok [path]
  | .ok (.directory listing) =>
      .ok ((Listing.filesWith extension path listing).mergeSort Path.le)
  | .error _ => .error (.missing path)

/-- This function finds the files that all paths stand for. -/
def collect (tree : FileTree) (extension : Text) : List Path → Except LoadError (List Path)
  | [] => .ok []
  | path :: rest =>
      match filesAt tree extension path with
      | .error error => .error error
      | .ok files =>
          match collect tree extension rest with
          | .error error => .error error
          | .ok others => .ok (files ++ others)

def loadFile (tree : FileTree) (path : Path) : Except LoadError Document :=
  match tree.readText path with
  | .error cause => .error (.unreadable path cause)
  | .ok text =>
      match Document.parse path text with
      | .error error => .error (.malformed path text error)
      | .ok document => .ok document

def loadFiles (tree : FileTree) : List Path → Except LoadError (List Document)
  | [] => .ok []
  | path :: rest =>
      match loadFile tree path with
      | .error error => .error error
      | .ok document =>
          match loadFiles tree rest with
          | .error error => .error error
          | .ok documents => .ok (document :: documents)

/-- This function loads all files that the paths stand for. A path that stands for nothing is reported
before any file is read. -/
def load (tree : FileTree) (extension : Text) (paths : List Path) : Except LoadError (List Document) :=
  match collect tree extension paths with
  | .error error => .error error
  | .ok files => loadFiles tree files

end Loader

end FeatureLint
