import ReplyLedger.Json.Value

/-!
# Writing JSON

Documents are written with one item or member a line, indented by two spaces a level. Texts are
written as they are, apart from quotation marks, backslashes and the control characters below
U+0020, which are escaped. `compact` is the same without line breaks.
-/

namespace ReplyLedger.Json

/-- One character of a text. -/
def escapeChar (c : Char) : Text :=
  if c = '"' then ['\\', '"']
  else if c = '\\' then ['\\', '\\']
  else if c = '\n' then ['\\', 'n']
  else if c = '\r' then ['\\', 'r']
  else if c = '\t' then ['\\', 't']
  else if c = '\x08' then ['\\', 'b']
  else if c = '\x0c' then ['\\', 'f']
  else if c.toNat < 0x20 then '\\' :: 'u' :: Text.ofHexPadded 4 c.toNat
  else [c]

/-- A text between quotation marks. -/
def writeText (t : Text) : Text := '"' :: t.flatMap escapeChar ++ ['"']

/-- A line break and the indentation of `level`. -/
def lineBreak (level : Nat) : Text := '\n' :: List.replicate (2 * level) ' '

namespace Value

/-- The text of a value without items or members of its own. -/
def writeAtom : Value → Text
  | null => "null"
  | bool b => if b then "true" else "false"
  | int n => Text.ofInt n
  | real x => Binary64.inRecord.write x
  | text t => writeText t
  | list _ => "[]"
  | object _ => "\x7b\x7d"

mutual

/-- The text of a value whose lines after the first are indented for `level`. -/
def write (level : Nat) : Value → Text
  | list (v :: vs) =>
    '[' :: lineBreak (level + 1) ++ writeItems (level + 1) (v :: vs) ++ lineBreak level ++ [']']
  | object (m :: ms) =>
    '\x7b' :: lineBreak (level + 1) ++ writeMembers (level + 1) (m :: ms) ++ lineBreak level ++
      ['\x7d']
  | v => writeAtom v

/-- The items of a list. -/
def writeItems (level : Nat) : List Value → Text
  | [] => []
  | [v] => write level v
  | v :: w :: r => write level v ++ ',' :: lineBreak level ++ writeItems level (w :: r)

/-- The members of an object. -/
def writeMembers (level : Nat) : List (Text × Value) → Text
  | [] => []
  | [(k, v)] => writeText k ++ [':', ' '] ++ write level v
  | (k, v) :: m :: r =>
    writeText k ++ [':', ' '] ++ write level v ++ ',' :: lineBreak level ++
      writeMembers level (m :: r)

end

/-- The document that holds a value. -/
def document (v : Value) : Text := write 0 v ++ ['\n']

mutual

/-- The text of a value on one line. -/
def compact : Value → Text
  | list (v :: vs) => '[' :: compactItems (v :: vs) ++ [']']
  | object (m :: ms) => '\x7b' :: compactMembers (m :: ms) ++ ['\x7d']
  | v => writeAtom v

/-- The items of a list on one line. -/
def compactItems : List Value → Text
  | [] => []
  | [v] => compact v
  | v :: w :: r => compact v ++ ',' :: compactItems (w :: r)

/-- The members of an object on one line. -/
def compactMembers : List (Text × Value) → Text
  | [] => []
  | [(k, v)] => writeText k ++ ':' :: compact v
  | (k, v) :: m :: r => writeText k ++ ':' :: compact v ++ ',' :: compactMembers (m :: r)

end

end Value

end ReplyLedger.Json
