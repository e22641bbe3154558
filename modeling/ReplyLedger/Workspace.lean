import ReplyLedger.Git.Commands
import ReplyLedger.Host.Files
import ReplyLedger.Operation.CanonicalPath

/-!
# Workspaces

A workspace is a directory, by its resolved location. `ofPath` finds it from what the user says,
or from the working tree of the current directory; `resolveIn` gives the location that a path of an
operation stands for, and refuses one outside the workspace; `relativePath` goes the other way, from
a path as the user writes it to the path inside the workspace.
-/

namespace ReplyLedger

open ReplyLedger.Action

/-- A workspace, by the location of its directory. -/
structure Workspace where
  root : Location
  deriving DecidableEq, Repr

namespace Workspace

/-- The text of the root. -/
def text (w : Workspace) : Text := (FilePath.ofNames w.root).text

/-- A path with a leading `~` replaced by the home directory that it stands for. -/
def expandHome (p : FilePath) : Action FilePath := do
  match p.isAbsolute, p.names with
  | false, ('~' :: user) :: rest =>
    if FileSystem.hasNul user then fail .badName
    else
      let h ← get
      match if user = [] then some h.home else h.users.lookup user with
      | some home =>
        let home := FilePath.ofText home
        return ⟨home.anchor, home.names ++ rest⟩
      | none => fail .noHome
  | _, _ => return p

/-- The root of the working tree of a directory; without one, the directory itself. -/
def repositoryRoot (directory : Option Text) : Action FilePath := do
  let found ← rescue (some <$> Git.run ["rev-parse", "--show-toplevel"] directory) Git.isMissing
    fun _ => return none
  match found with
  | some (0, output, _) => return FilePath.ofText (Text.strip output)
  | _ =>
    match directory with
    | some d => return FilePath.ofText d
    | none => return FilePath.ofNames (← currentLocation)

/-- A path as one from the root: a relative path is seen from the current directory. -/
def absolutePath (p : FilePath) : Action FilePath := do
  if p.isAbsolute then return p
  else return (FilePath.ofNames (← currentLocation)).join p

/-- The segments of a path from the root. From a removed current directory, a relative path has them
only if it climbs out and leads through a link to a rooted path. -/
def rootedSegments (p : FilePath) : Action (List Text) := do
  let h ← get
  match p.isAbsolute, h.cwd with
  | false, .removed above between =>
    match FileSystem.climb .followed between p.names with
    | .reached rest =>
      match h.files.rootedRest? FileSystem.maxLinks above rest with
      | some segments => return segments
      | none => fail .noCurrentDirectory
    | _ => fail .noCurrentDirectory
  | _, _ => return (← absolutePath p).names

/-- The path that a path comes to when its links are resolved. -/
def resolvePath (p : FilePath) : Action FilePath := do
  let segments ← rootedSegments p
  match (← get).files.resolve segments with
  | .ok found => return found
  | .error .badName => fail .badName
  | .error (.loop path) => fail (.linkLoop path.text)

/-- The workspace at a path, or, if none is given, that of the current working tree. -/
def ofPath (given : Option FilePath) : Action Workspace := do
  let path ←
    match given with
    | some p => expandHome p
    | none => repositoryRoot none
  if ← isDirectory path.text then return ⟨(← resolvePath path).names⟩
  else fail (.noWorkspace path.text)

/-- The workspace that a text names; an empty text names that of the current working tree. -/
def ofText (given : Text) : Action Workspace :=
  ofPath (if given = [] then none else some (FilePath.ofText given))

/-- Whether a path is the root of the workspace or below it. -/
def covers (w : Workspace) (p : FilePath) : Bool := p.anchor = .root && w.root.isPrefixOf p.names

/-- The location below the root of the workspace that the path of an operation stands for. -/
def resolveIn (w : Workspace) (path : Text) : Action Location := do
  let given := FilePath.ofText (canonicalPath path)
  match (← get).files.resolve ((FilePath.ofNames w.root).join given).names with
  | .error .badName => fail (.invalidPath path Failure.badName.message)
  | .error (.loop found) => fail (.invalidPath path (Failure.linkLoop found.text).message)
  | .ok found =>
    if w.covers found && found.names ≠ w.root then return found.names else fail (.outside path)

/-- The path inside the workspace of a path that is absolute or seen from the current directory. -/
def relativePath (w : Workspace) (path : Text) : Action Text := do
  let found ← resolvePath (← absolutePath (FilePath.ofText path))
  if w.covers found then
    let names := found.names.drop w.root.length
    return canonicalPath (if names = [] then ['.'] else Text.joinWith ['/'] names)
  else fail (.outside path)

end Workspace

end ReplyLedger
