import ReplyLedger.Text.Basic

/-!
# Paths

A path as a program writes it: relative, or from the root, and the names on the way. Empty segments
and segments `.` name nothing and are dropped; segments `..` are kept, since where they lead depends
on links. The path without any name is the current directory and is written `.`.
-/

namespace ReplyLedger

/-- Where a path begins. Exactly two slashes at the front are kept apart from one. -/
inductive FilePath.Anchor
  | relative
  | root
  | doubleRoot
  deriving DecidableEq, Repr

/-- A path: where it begins, and its names. -/
structure FilePath where
  anchor : FilePath.Anchor
  names : List Text
  deriving DecidableEq, Repr

namespace FilePath

/-- The text of an anchor. -/
def Anchor.text : Anchor → Text
  | .relative => []
  | .root => ['/']
  | .doubleRoot => ['/', '/']

/-- The anchor of a written path. -/
def anchorOf (t : Text) : Anchor :=
  match (t.takeWhile (· = '/')).length with
  | 0 => .relative
  | 2 => .doubleRoot
  | _ => .root

/-- The segments of a written path that name something. -/
def namesOf (t : Text) : List Text := (Text.segments '/' t).filter fun s => s ≠ [] && s ≠ ['.']

/-- The path that a text writes. -/
def ofText (t : Text) : FilePath := ⟨anchorOf t, namesOf t⟩

/-- The text of a path. -/
def text (p : FilePath) : Text :=
  match p.anchor.text ++ Text.joinWith ['/'] p.names with
  | [] => ['.']
  | t => t

/-- Whether a path begins at the root. -/
def isAbsolute (p : FilePath) : Bool := p.anchor ≠ .relative

/-- The path `q` as seen from `p`. -/
def join (p q : FilePath) : FilePath := if q.isAbsolute then q else ⟨p.anchor, p.names ++ q.names⟩

/-- The path `p` with one more name. -/
def child (p : FilePath) (name : Text) : FilePath := ⟨p.anchor, p.names ++ [name]⟩

/-- The path without its last name. -/
def parent (p : FilePath) : FilePath := ⟨p.anchor, p.names.dropLast⟩

/-- The last name of a path. -/
def name (p : FilePath) : Text := p.names.getLast?.getD []

/-- The absolute path of a list of names. -/
def ofNames (names : List Text) : FilePath := ⟨.root, names⟩

end FilePath

end ReplyLedger
