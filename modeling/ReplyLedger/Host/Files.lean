import ReplyLedger.Host.Basic

/-!
# Reading and writing files

Text files are UTF-8, and line ends are left as they are. A lookup that only asks what is there
takes a path that leads nowhere, or that holds a NUL character, for one that names nothing.
-/

namespace ReplyLedger.Action

/-- The text of a file. -/
def readTextWith (mode : Utf8.OnBroken) (path : Text) : Action Text := do
  let bytes ← call path fun files cwd => files.readFile cwd path
  match Utf8.decodeWith mode bytes with
  | .ok t => return t
  | .error fault => fail (.undecodable fault)

/-- The text of a file, which must be UTF-8. -/
def readText (path : Text) : Action Text := readTextWith .strict path

/-- Give a file a text, making it if it is not there. -/
def writeText (path text : Text) : Action Unit :=
  change path fun files cwd => files.changeFile cwd path fun _ => Utf8.encode text

/-- Add a text to the end of a file, making it if it is not there. -/
def appendText (path text : Text) : Action Unit :=
  change path fun files cwd => files.changeFile cwd path fun bytes => bytes ++ Utf8.encode text

/-- Give a file the text that a record value is. The file is emptied before the value is looked
at. -/
def writeValue (path : Text) (content : Json.Value) : Action Unit :=
  match content with
  | .text t => writeText path t
  | _ => do
    change path fun files cwd => files.changeFile cwd path fun _ => []
    fail .wrongType

/-- The entry that a path names, links followed, if there is one. -/
def status? (path : Text) : Action (Option Entry) := do
  if FileSystem.hasNul path then return none
  else
    let h ← get
    match h.files.status h.cwd path with
    | .ok e => return some e
    | .error .noEntry | .error .notDirectory | .error .tooManyLinks => return none
    | .error e => fail (.system e path)

/-- Whether a path names anything. -/
def pathExists (path : Text) : Action Bool := return (← status? path).isSome

/-- Whether a path names a directory. -/
def isDirectory (path : Text) : Action Bool := return (← status? path) = some .directory

/-- Whether a path names a regular file. -/
def isFile (path : Text) : Action Bool := do
  match ← status? path with
  | some (.file _) => return true
  | _ => return false

/-- Make one directory. -/
def makeDirectory (path : Text) : Action Unit :=
  change path fun files cwd => files.makeDirectory cwd path

/-- Whether a failure says that a path, or the way to it, is not there. -/
def isNoEntry : Failure → Bool
  | .system .noEntry _ => true
  | _ => false

/-- Make one directory, unless it is there. -/
def ensureDirectory (path : Text) : Action Unit :=
  rescue (makeDirectory path) (fun f => f.isSystem && !isNoEntry f) fun f => do
    if ← isDirectory path then return () else fail f

/-- Make the directory with the names `names` after the anchor, unless it is there, and before it
those above it that are missing. The names are given from the last one on. -/
def ensureDirectoriesFrom (anchor : FilePath.Anchor) : List Text → Action Unit
  | [] => ensureDirectory (FilePath.text ⟨anchor, []⟩)
  | name :: above =>
    let path := FilePath.text ⟨anchor, (name :: above).reverse⟩
    rescue (ensureDirectory path) isNoEntry fun _ => do
      ensureDirectoriesFrom anchor above
      ensureDirectory path

/-- Make a directory, unless it is there, and those above it that are missing. -/
def ensureDirectories (path : FilePath) : Action Unit :=
  ensureDirectoriesFrom path.anchor path.names.reverse

/-- Remove a file, if it is there. -/
def removeIfThere (path : Text) : Action Unit :=
  rescue (change path fun files cwd => files.unlink cwd path) isNoEntry fun _ => return ()

/-- The names in a directory that end in `ending`; a path that names no directory holds none. -/
def namesEndingIn (ending path : Text) : Action (List Text) := do
  if ← isDirectory path then
    let names ← call path fun files cwd => files.listDirectory cwd path
    return names.filter fun n => Text.startsWith ending.reverse n.reverse
  else return []

end ReplyLedger.Action
