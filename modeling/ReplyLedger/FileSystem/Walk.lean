import ReplyLedger.FileSystem.CurrentDirectory
import ReplyLedger.Text.Quoted

/-!
# Following a path

How the operating system finds what a path names. Names are looked up one after the other; a link is
followed wherever it stands on the way, and at the end if that is asked for, and a path may lead
through at most `maxLinks` links.

`advance` goes as far as the next link that has to be followed, by recursion on the names;
`walk` follows the links, by recursion on their number. A relative path is seen from the current
directory; from one that has been removed, `climb` goes up to a directory of the tree first.
-/

namespace ReplyLedger

/-- Why the operating system refuses a call. -/
inductive Errno
  | noEntry
  | fileExists
  | notDirectory
  | isDirectory
  | invalid
  | nameTooLong
  | tooManyLinks
  deriving DecidableEq, Repr

namespace Errno

/-- The number of an error. -/
def code : Errno → Nat
  | .noEntry => 2
  | .fileExists => 17
  | .notDirectory => 20
  | .isDirectory => 21
  | .invalid => 22
  | .nameTooLong => 36
  | .tooManyLinks => 40

/-- The text of an error. -/
def text : Errno → Text
  | .noEntry => "No such file or directory"
  | .fileExists => "File exists"
  | .notDirectory => "Not a directory"
  | .isDirectory => "Is a directory"
  | .invalid => "Invalid argument"
  | .nameTooLong => "File name too long"
  | .tooManyLinks => "Too many levels of symbolic links"

/-- The message about an error. -/
def message (e : Errno) : Text := "[Errno " ++ Text.ofNat e.code ++ "] " ++ e.text

/-- The message about a call for a path. -/
def about (e : Errno) (path : Text) : Text := e.message ++ ": " ++ Text.quote path

/-- The message about a link to `content` that was to be made at a path. -/
def aboutLink (e : Errno) (content path : Text) : Text :=
  e.message ++ ": " ++ Text.quote content ++ " -> " ++ Text.quote path

end Errno

namespace FileSystem

/-- The greatest number of links that a path may lead through. -/
def maxLinks : Nat := 40

/-- What a call does with the last name of a path. -/
inductive LastName
  /-- Follow it, if it is a link. -/
  | followed
  /-- Take it as it is, even if it is a link. -/
  | kept
  /-- Follow it, and make a file there if nothing is; a slash after it is refused. -/
  | made
  deriving DecidableEq, Repr

/-- What a path names. -/
inductive Found
  /-- An entry. -/
  | entry (p : Location) (e : Entry)
  /-- Nothing yet, but the directory is there. -/
  | vacant (directory : Location) (name : Text)
  /-- A directory that has been removed, and is empty therefore. -/
  | removed
  deriving DecidableEq, Repr

/-- How far the names lead. -/
inductive Progress
  | arrived (found : Found)
  | refused (error : Errno)
  /-- To a link in a directory, with the segments that come after it. -/
  | atLink (directory : Location) (target : Text) (rest : List Text)
  deriving DecidableEq, Repr

/-- Look up the segments of a path from the directory `here`, up to the next link that has to be
followed. -/
def advance (fs : FileSystem) (last : LastName) (here : Location) : List Text → Progress
  | [] => .arrived (.entry here .directory)
  | s :: rest =>
    if s = [] || s = ['.'] then advance fs last here rest
    else if s = ['.', '.'] then advance fs last here.dropLast rest
    else if last = .made && rest ≠ [] && rest.all List.isEmpty then .refused .isDirectory
    else if isTooLong s then .refused .nameTooLong
    else
      match fs.entryAt (here ++ [s]) with
      | none => if rest = [] then .arrived (.vacant here s) else .refused .noEntry
      | some .directory => advance fs last (here ++ [s]) rest
      | some (.file bytes) =>
        if rest = [] then .arrived (.entry (here ++ [s]) (.file bytes)) else .refused .notDirectory
      | some (.link target) =>
        if rest = [] && last = .kept then .arrived (.entry (here ++ [s]) (.link target))
        else .atLink here target rest

/-- Whether a written path begins at the root. -/
def isRooted (path : Text) : Bool := path.head? == some '/'

/-- The segments of a written path. -/
def segmentsOf (path : Text) : List Text := Text.segments '/' path

/-- Follow the segments of a path from the directory `here`, through at most `links` links. -/
def walk (fs : FileSystem) (last : LastName) (links : Nat) (here : Location)
    (segments : List Text) : Except Errno Found :=
  match advance fs last here segments with
  | .arrived found => .ok found
  | .refused error => .error error
  | .atLink directory target rest =>
    match links with
    | 0 => .error .tooManyLinks
    | links + 1 =>
      walk fs last links (if isRooted target then [] else directory) (segmentsOf target ++ rest)

/-- How far the segments of a path lead from a removed directory. -/
inductive Climb
  /-- To a removed directory. -/
  | removed
  /-- To a directory that has not been removed, with the segments that come after it. -/
  | reached (rest : List Text)
  | refused (error : Errno)
  deriving DecidableEq, Repr

/-- Look up the segments of a path from a removed directory, `between + 1` levels below one that has
not been removed. Removed directories can be left upwards only. -/
def climb (last : LastName) (between : Nat) : List Text → Climb
  | [] => .removed
  | s :: rest =>
    if s = [] || s = ['.'] then climb last between rest
    else if s = ['.', '.'] then
      match between with
      | 0 => .reached rest
      | between + 1 => climb last between rest
    else if last = .made && rest ≠ [] && rest.all List.isEmpty then .refused .isDirectory
    else .refused .noEntry

/-- What a written path names, as seen from the current directory. -/
def find (fs : FileSystem) (cwd : CurrentDirectory) (last : LastName) (path : Text) :
    Except Errno Found :=
  if path = [] then .error .noEntry
  else if isRooted path then walk fs last maxLinks [] (segmentsOf path)
  else
    match cwd with
    | .present p => walk fs last maxLinks p (segmentsOf path)
    | .removed above between =>
      match climb last between (segmentsOf path) with
      | .removed => .ok .removed
      | .reached rest => walk fs last maxLinks above rest
      | .refused error => .error error

/-- The entry that a path names, links followed. -/
def status (fs : FileSystem) (cwd : CurrentDirectory) (path : Text) : Except Errno Entry := do
  match ← fs.find cwd .followed path with
  | .entry _ e => return e
  | .removed => return .directory
  | .vacant _ _ => .error .noEntry

/-! ## Calls that change files -/

/-- The bytes of a file. -/
def readFile (fs : FileSystem) (cwd : CurrentDirectory) (path : Text) : Except Errno Bytes := do
  match ← fs.status cwd path with
  | .file bytes => return bytes
  | .directory => .error .isDirectory
  | .link _ => .error .tooManyLinks

/-- The file system after `change` has been applied to the bytes of a file; a file that is not there
yet is made, with no bytes before the change. -/
def changeFile (fs : FileSystem) (cwd : CurrentDirectory) (path : Text) (change : Bytes → Bytes) :
    Except Errno FileSystem := do
  match ← fs.find cwd .made path with
  | .entry p (.file bytes) => return fs.put p (.file (change bytes))
  | .entry _ .directory | .removed => .error .isDirectory
  | .entry _ (.link _) => .error .tooManyLinks
  | .vacant directory name => return fs.put (directory ++ [name]) (.file (change []))

/-- The file system with a new directory. -/
def makeDirectory (fs : FileSystem) (cwd : CurrentDirectory) (path : Text) :
    Except Errno FileSystem := do
  match ← fs.find cwd .kept path with
  | .entry _ _ | .removed => .error .fileExists
  | .vacant directory name => return fs.put (directory ++ [name]) .directory

/-- The file system without a file or a link. -/
def unlink (fs : FileSystem) (cwd : CurrentDirectory) (path : Text) :
    Except Errno FileSystem := do
  match ← fs.find cwd .kept path with
  | .entry _ .directory | .removed => .error .isDirectory
  | .entry p _ => return fs.erase p
  | .vacant _ _ => .error .noEntry

/-- The names in a directory. -/
def listDirectory (fs : FileSystem) (cwd : CurrentDirectory) (path : Text) :
    Except Errno (List Text) := do
  match ← fs.find cwd .followed path with
  | .entry p .directory => return fs.namesIn p
  | .removed => return []
  | .entry _ _ => .error .notDirectory
  | .vacant _ _ => .error .noEntry

end FileSystem

end ReplyLedger
