import ReplyLedger.FileSystem.Walk

/-!
# Copying a directory

`copyTree` makes a directory again at another place, with all that is in it: the names in it are read
first, then the new directory is made, and then the entries are copied one by one, links as links and
directories in the same way. What cannot be copied is noted, and the copy goes on.

A directory that is copied to a place below itself comes upon its own copy, unless that place is in
the directory itself, so that its names have been read before. Such a copy ends when the path to the
next new directory is longer than paths can be, or else when the machine cannot nest the calls any
deeper: `copyTree` is by recursion on how many more directories may be entered. What has been made
until then stays.
-/

namespace ReplyLedger.FileSystem

/-- The greatest number of bytes of a path. -/
def maxPathLength : Nat := 4095

/-- Whether a path is longer than paths can be. -/
def isLongPath (path : Text) : Bool := maxPathLength < (Utf8.encode path).length

/-- A place that is to be copied, or copied to: a location, and the path that leads there. -/
structure Place where
  location : Location
  path : Text
  deriving DecidableEq, Repr

/-- The place of a name in a directory. -/
def Place.child (p : Place) (name : Text) : Place := ⟨p.location ++ [name], p.path ++ '/' :: name⟩

/-- An entry that has not been copied, and why. -/
structure CopyFault where
  source : Text
  target : Text
  reason : Text
  deriving DecidableEq, Repr

/-- How a copy ends. -/
inductive CopyEnd
  | done
  /-- The new directory cannot be made. -/
  | refused (error : Errno) (path : Text)
  /-- Some entries have not been copied. -/
  | faulty (faults : List CopyFault)
  /-- The calls would have to be nested deeper than the machine can. -/
  | tooDeep
  deriving DecidableEq, Repr

/-- The reason why a directory cannot be listed that has been found in another one. -/
def notListed (src : Place) : Text :=
  Errno.nameTooLong.message ++ ": <DirEntry " ++ Text.quote (src.location.getLastD []) ++ ">"

/-- Copy an entry of a directory, when `copy` copies directories. -/
def copyEntry (copy : Place → Place → FileSystem → CopyEnd × FileSystem) (src dst : Place)
    (fs : FileSystem) : CopyEnd × FileSystem :=
  let fault (reason : Text) : CopyEnd × FileSystem := (.faulty [⟨src.path, dst.path, reason⟩], fs)
  match fs.entryAt src.location with
  | some .directory =>
    if isLongPath src.path then fault (notListed src)
    else
      match copy src dst fs with
      | (.refused e path, fs) => (.faulty [⟨src.path, dst.path, e.about path⟩], fs)
      | other => other
  | some (.link content) =>
    if isLongPath src.path then fault (Errno.nameTooLong.about src.path)
    else if isLongPath dst.path then fault (Errno.nameTooLong.aboutLink content dst.path)
    else (.done, fs.put dst.location (.link content))
  | some (.file bytes) =>
    if isLongPath src.path then fault (Errno.nameTooLong.about src.path)
    else if isLongPath dst.path then fault (Errno.nameTooLong.about dst.path)
    else (.done, fs.put dst.location (.file bytes))
  | none => (.done, fs)

/-- Copy entries of a directory by their names, one by one, and note what cannot be copied. -/
def copyEntries (copy : Place → Place → FileSystem → CopyEnd × FileSystem) (src dst : Place)
    (faults : List CopyFault) : List Text → FileSystem → CopyEnd × FileSystem
  | [], fs => (if faults = [] then .done else .faulty faults, fs)
  | name :: names, fs =>
    match copyEntry copy (src.child name) (dst.child name) fs with
    | (.faulty more, fs) => copyEntries copy src dst (faults ++ more) names fs
    | (.tooDeep, fs) => (.tooDeep, fs)
    | (_, fs) => copyEntries copy src dst faults names fs

/-- Copy a directory with all that is in it, when at most `depth` directories may be entered, one in
the other. -/
def copyTree : Nat → Place → Place → FileSystem → CopyEnd × FileSystem
  | 0, _, _, fs => (.tooDeep, fs)
  | depth + 1, src, dst, fs =>
    if isLongPath dst.path then (.refused .nameTooLong dst.path, fs)
    else
      copyEntries (copyTree depth) src dst [] (fs.namesIn src.location)
        (fs.put dst.location .directory)

end ReplyLedger.FileSystem
