import FeatureLint.Command

/-!
This file connects the commands with the files, the arguments and the output of the machine. The part of
the file system that a request can see is read into a file tree, the command runs on the tree, and what
it wrote is written back.
-/

namespace FeatureLint.Main

open Command (Request Invocation ArgumentError)

def nameOf (place : Place) : String :=
  String.ofList ('/' :: Text.joinWith ['/'] place)

def readFile (place : Place) : IO (Option Text) := do
  return (String.fromUTF8? (← IO.FS.readBinFile (nameOf place))).map String.toList

/-- This action reads a directory with everything below it. Only files with a wanted name are opened,
and files that are in the tree already stay as they are. -/
partial def readDeep (tree : FileTree) (wanted : Text → Bool) (place : Place) : IO Entry := do
  let path := (← IO.currentDir) / nameOf place
  if ← path.isDir then
    let listing ← (← path.readDir).toList.mapM fun found => do
      let name := found.fileName.toList
      return (name, ← readDeep tree wanted (place ++ [name]))
    return .directory listing
  else
    match tree.entryAt? place with
    | some (.file text?) => return .file text?
    | _ => if wanted (place.getLastD []) then return .file (← readFile place) else return .file none

/-- This action adds the entry at a place without what is below it. -/
def addPlace (tree : FileTree) (place : Place) : IO FileTree := do
  let path := (← IO.currentDir) / nameOf place
  if (tree.entryAt? place).isSome || !(← path.pathExists) then
    return tree
  else if ← path.isDir then
    return tree.put place (.directory [])
  else
    return tree.put place (.file (← readFile place))

/-- This action adds the entries on the way to a path and returns the place where the path leads. -/
def addPath (tree : FileTree) (path : Path) : IO (FileTree × Place) :=
  (Text.cutAt '/' path.text).foldlM (fun (tree, place) piece => do
    if Path.isFilling piece then return (tree, place)
    else if piece = ['.', '.'] then return (tree, place.dropLast)
    else return (← addPlace tree (place ++ [piece]), place ++ [piece])) (tree, tree.startOf path)

def addPaths (tree : FileTree) (paths : List Path) : IO FileTree :=
  paths.foldlM (fun tree path => return (← addPath tree path).1) tree

/-- This action adds the files that a path stands for. -/
def addFiles (extension : Text) (tree : FileTree) (path : Path) : IO FileTree := do
  let (tree, place) ← addPath tree path
  match tree.entryAt? place with
  | some (.directory _) =>
      let wanted name := Path.extensionOfName? name = some extension
      match place, ← readDeep tree wanted place with
      | [], .directory root => return { tree with root := root }
      | _, entry => return tree.put place entry
  | _ => return tree

/-- This action reads what a request can see. The settings say which feature files that is. -/
def readTree (request : Request) : IO FileTree := do
  let here : Path := ⟨(← IO.currentDir).toString.toList⟩
  let names := here.components.filterMap fun
    | .name name => some name
    | _ => none
  let tree ← addPaths ⟨[], names⟩ [here]
  let settingsPaths := here.lineage.map fun directory => directory.join ⟨Settings.fileName⟩
  let tree ← addPaths tree (settingsPaths ++ request.writes)
  match request with
  | .init directory => addPaths tree [directory]
  | .linters settings? => addPaths tree settings?.toList
  | .lint paths settings? _ _ => do
      let tree ← addPaths tree settings?.toList
      match Command.loadSettings tree settings? with
      | .error _ => return tree
      | .ok (settings, base) =>
          (Command.pathsToLint paths settings base).foldlM (addFiles settings.extension) tree

/-- This action writes the files that a command changed. -/
def writeChanges (before after : FileTree) (request : Request) : IO Unit :=
  request.writes.forM fun path => do
    match after.readText path, before.readText path with
    | .ok text, old =>
        if old.toOption ≠ some text then
          let directory := path.parent?.getD ⟨[]⟩
          if !directory.text.isEmpty then
            IO.FS.createDirAll (String.ofList directory.text)
          IO.FS.writeFile (String.ofList path.text) (String.ofList text)
    | .error _, _ => return

def usage : String :=
  "Usage: gherlint [-v] <COMMAND>\n\n" ++
  "Commands:\n" ++
  "  lint [-c FILE] [-f pretty|json] [-o FILE] [PATHS]...  Lint feature files\n" ++
  "  linters [-c FILE]                                     List the available linters\n" ++
  "  init [DIRECTORY]                                      Write default settings\n" ++
  "  help [COMMAND]                                        Print this help\n"

def complaint : ArgumentError → String
  | .helpAsked | .versionAsked | .nothingGiven => ""
  | .commandMissing => "error: a command is missing\n\n"
  | .unknownCommand => "error: unknown command\n\n"
  | .unknownArgument => "error: unknown argument\n\n"
  | .badValue => "error: a value is missing or not valid\n\n"
  | .repeatedOption => "error: an option is given more than once\n\n"
  | .needlessValue => "error: a value is given to an option that takes none\n\n"

def refuse (error : ArgumentError) : IO UInt32 := do
  match error with
  | .helpAsked => IO.print usage
  | .versionAsked => IO.println "gherlint 0.1.0"
  | _ => IO.eprint (complaint error ++ usage)
  return error.exitCode.toUInt32

def perform (invocation : Invocation) : IO UInt32 := do
  let tree ← readTree invocation.request
  let outcome := Command.run tree invocation.request
  writeChanges tree outcome.tree invocation.request
  IO.print (String.ofList outcome.printed)
  match outcome.failure? with
  | some failure => IO.eprintln (String.ofList failure.report)
  | none => pure ()
  return outcome.exitCode.toUInt32

end FeatureLint.Main

def main (arguments : List String) : IO UInt32 :=
  match FeatureLint.Command.read (arguments.map String.toList) with
  | .error error => FeatureLint.Main.refuse error
  | .ok invocation => FeatureLint.Main.perform invocation
