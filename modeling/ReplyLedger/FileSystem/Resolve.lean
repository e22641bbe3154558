import ReplyLedger.FilePath
import ReplyLedger.FileSystem.Walk

/-!
# Resolving a path

The path that is left when every link on the way is replaced by what it stands for. The path need
not name anything: from the first name that is not there, the rest is taken as it is written. A link
whose resolution comes to the link itself cannot be replaced; resolution then stops there, and what
is left of the path is read without looking at the file system (`readPlain`).

`follow` goes through the segments of a path and leaves links to a given function; `resolveFrom` is
the function that resolves them, by recursion on how many more links may be in the middle of their
own resolution. Those links are distinct, so the number of links in the file system is enough. A link
is resolved once only: what it has come to is kept, so that links that stand for paths through other
links do not take ever more steps.
-/

namespace ReplyLedger.FileSystem

/-- The links that a resolution has entered, the latest first: each with the location that it has
come to, or with none while it is in the middle of its own resolution. -/
abbrev Entered := List (Location × Option Location)

/-- What a path comes to. -/
inductive Resolution
  /-- A location, all links on the way replaced. -/
  | resolved (p : Location) (entered : Entered)
  /-- A path read as it is written, after a link that had to be left in place. -/
  | stuck (path : FilePath)
  /-- Nothing, since a name holds a NUL character. -/
  | badName
  deriving DecidableEq, Repr

/-- The location that segments lead to from `here` when no segment is looked up. -/
def readPlainFrom (here : Location) : List Text → Location
  | [] => here
  | s :: rest =>
    if s = [] || s = ['.'] then readPlainFrom here rest
    else if s = ['.', '.'] then readPlainFrom here.dropLast rest
    else readPlainFrom (here ++ [s]) rest

/-- The path that the rest of a path leads to from `path` when no segment is looked up. A rest that
begins with a slash is a path of its own. -/
def readPlain (path : FilePath) (rest : List Text) : FilePath :=
  match FilePath.anchorOf (Text.joinWith ['/'] rest) with
  | .relative => ⟨path.anchor, readPlainFrom path.names rest⟩
  | anchor => ⟨anchor, readPlainFrom [] rest⟩

/-- Follow the segments of a path from the location `here`. `enter entered link target` says what a
link comes to that has not been entered before, given its location and its target. -/
def follow (fs : FileSystem) (enter : Entered → Location → Text → Resolution) (entered : Entered)
    (here : Location) : List Text → Resolution
  | [] => .resolved here entered
  | s :: rest =>
    if s = [] || s = ['.'] then follow fs enter entered here rest
    else if s = ['.', '.'] then follow fs enter entered here.dropLast rest
    else if hasNul s then .badName
    else
      let next := here ++ [s]
      match fs.entryAt next with
      | some (.link target) =>
        match entered.lookup next with
        | some (some p) => follow fs enter entered p rest
        | some none => .stuck (readPlain (.ofNames next) rest)
        | none =>
          match enter ((next, none) :: entered) next target with
          | .resolved p entered => follow fs enter ((next, some p) :: entered) p rest
          | .stuck path => .stuck (readPlain path rest)
          | .badName => .badName
      | _ => follow fs enter entered next rest

/-- Resolve segments from the location `here`, when at most `depth` more links may be in the middle
of their own resolution. -/
def resolveFrom (fs : FileSystem) : Nat → Entered → Location → List Text → Resolution
  | 0 => follow fs fun _ link _ => .stuck (.ofNames link)
  | depth + 1 =>
    follow fs fun entered link target =>
      resolveFrom fs depth entered (if isRooted target then [] else link.dropLast)
        (segmentsOf target)

/-- The number of links in a file system. -/
def linkCount (fs : FileSystem) : Nat :=
  fs.entries.countP fun x =>
    match x.2 with
    | .link _ => true
    | _ => false

/-- What the segments of a path from the root come to. -/
def resolution (fs : FileSystem) (segments : List Text) : Resolution :=
  resolveFrom fs fs.linkCount [] [] segments

/-- Why a path has no resolution. -/
inductive ResolveFault
  /-- A name holds a NUL character. -/
  | badName
  /-- The path that is left leads through too many links. -/
  | loop (path : FilePath)
  deriving DecidableEq, Repr

/-- The path that is left by a resolution. It is looked up once more, and refused if that leads
through too many links, as it may if a link was left in place. -/
def settle (fs : FileSystem) (path : FilePath) : Except ResolveFault FilePath :=
  if path.names.any hasNul then .error .badName
  else
    match fs.walk .followed maxLinks [] path.names with
    | .error .tooManyLinks => .error (.loop path)
    | _ => .ok path

/-- The path that the segments of a path from the root come to. -/
def resolve (fs : FileSystem) (segments : List Text) : Except ResolveFault FilePath :=
  match fs.resolution segments with
  | .resolved p _ => fs.settle (.ofNames p)
  | .stuck path => fs.settle path
  | .badName => .error .badName

/-- The segments that a path goes on with from the root, at the first link to a rooted path that it
leads through. -/
def rootedRest? (fs : FileSystem) (links : Nat) (here : Location) (segments : List Text) :
    Option (List Text) :=
  match fs.advance .followed here segments with
  | .atLink directory target rest =>
    match links with
    | 0 => none
    | links + 1 =>
      if isRooted target then some (segmentsOf target ++ rest)
      else rootedRest? fs links directory (segmentsOf target ++ rest)
  | _ => none

end ReplyLedger.FileSystem
