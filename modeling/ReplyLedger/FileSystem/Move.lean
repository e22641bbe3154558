import ReplyLedger.FileSystem.Walk

/-!
# Moving entries

`rename` is the call of the operating system: it moves what stands at a path, a link itself and not
what it leads to, and puts it in the place of a file or a link that is there. It never moves a
directory below itself.

`relocateAll` moves by a rename if it can. What cannot be renamed is made again at the target and
then removed, so it is the target that the operating system refuses. A directory that is to be moved
below itself is not copied when the paths themselves show that; when they do not show it, it is
(`Relocation.copy`).

A displacement is left to `displace`, and a copy to `copyTree`.
-/

namespace ReplyLedger.FileSystem

/-- The displacement that puts the entry that `source` names at the place that `target` names. -/
def rename (fs : FileSystem) (cwd : CurrentDirectory) (source target : Text) :
    Except Errno Displacement := do
  match ← fs.find cwd .kept source with
  | .vacant _ _ => .error .noEntry
  | .removed => .error .noEntry
  | .entry p e =>
    match ← fs.find cwd .kept target with
    | .vacant directory name =>
      let q := directory ++ [name]
      if p.isPrefixOf q then .error .invalid else return .move p q
    | .removed => .error .isDirectory
    | .entry q e' =>
      if p = q then return .move p q
      else if p.isPrefixOf q then .error .invalid
      else if e' = .directory then .error .isDirectory
      else if e = .directory then .error .notDirectory
      else return .move p q

/-- Why an entry cannot be moved. -/
inductive MoveFault
  /-- The operating system refuses a call about a path. -/
  | system (error : Errno) (path : Text)
  /-- The operating system refuses to make a link to `content` at a path. -/
  | link (error : Errno) (content path : Text)
  /-- The target is below the source. -/
  | intoItself
  deriving DecidableEq, Repr

/-- How an entry is brought to another place. -/
inductive Relocation
  | displace (d : Displacement)
  /-- A directory is copied to a vacant place below itself, and then removed. -/
  | copy (source target : Location)
  deriving DecidableEq, Repr

/-- How the entry that `source` names is brought, with all below it, to the place that `target`
names. -/
def relocateAll (fs : FileSystem) (cwd : CurrentDirectory) (source target : Text) :
    Except MoveFault Relocation :=
  match fs.rename cwd source target with
  | .ok displacement => .ok (.displace displacement)
  | .error e =>
    match fs.find cwd .kept source with
    | .ok (.entry p .directory) =>
      if Text.startsWith (source ++ ['/']) (target ++ ['/']) then .error .intoItself
      else
        match fs.find cwd .kept target with
        | .ok (.vacant directory name) => .ok (.copy p (directory ++ [name]))
        | .ok _ => .error (.system .fileExists target)
        | .error e => .error (.system e target)
    | .ok (.entry _ (.link content)) => .error (.link e content target)
    | .ok (.entry _ (.file _)) => .error (.system e target)
    | _ => .error (.system e source)

end ReplyLedger.FileSystem
