import ReplyLedger.Binary64.Shortest
import ReplyLedger.Text.Quoted

/-!
# Record values

The values of a JSON document. Whole numbers and numbers with a fraction or an exponent are kept
apart, and the members of an object keep their order. This module also says which values count as
empty, when two values are the same, and how a value is shown in a message.
-/

namespace ReplyLedger.Json

/-- A value of a JSON document. -/
inductive Value
  | null
  | bool (b : Bool)
  | int (n : Int)
  | real (x : Binary64)
  | text (t : Text)
  | list (items : List Value)
  | object (members : List (Text × Value))
  deriving Inhabited, Repr

namespace Value

/-- Whether a value counts as empty: null, false, zero, and the texts, lists and objects with
nothing in them. -/
def isEmpty : Value → Bool
  | null => true
  | bool b => !b
  | int n => n == 0
  | real x => x.isZero
  | text t => List.isEmpty t
  | list items => List.isEmpty items
  | object members => List.isEmpty members

/-- The number that a truth value or a whole number stands for. -/
def number? : Value → Option Int
  | bool b => some (if b then 1 else 0)
  | int n => some n
  | _ => none

/-- The value of the member `key`. -/
def memberOf (key : Text) (members : List (Text × Value)) : Option Value :=
  (members.find? fun m => m.1 == key).map Prod.snd

/-- The value of the member `key` of an object; a value that is no object has no members. -/
def member? (key : Text) : Value → Option Value
  | object members => memberOf key members
  | _ => none

mutual

/-- Whether two values are the same: numbers by what they stand for, truth values counting as 0 and
1, and objects whatever the order of their members. -/
def same : Value → Value → Bool
  | null, null => true
  | text s, text t => s == t
  | real x, real y => x.sameValue y
  | real x, v => match v.number? with
    | some n => x.equalsInt n
    | none => false
  | v, real y => match v.number? with
    | some n => y.equalsInt n
    | none => false
  | list xs, list ys => sameItems xs ys
  | object xs, object ys => xs.length == ys.length && sameMembers xs ys
  | v, w => match v.number?, w.number? with
    | some m, some n => m == n
    | _, _ => false

/-- Whether two lists hold the same values in the same order. -/
def sameItems : List Value → List Value → Bool
  | [], [] => true
  | x :: xs, y :: ys => same x y && sameItems xs ys
  | _, _ => false

/-- Whether every member of the first list is one of the second, with the same value. -/
def sameMembers : List (Text × Value) → List (Text × Value) → Bool
  | [], _ => true
  | (k, x) :: xs, ys =>
    (match memberOf k ys with
      | some y => same x y
      | none => false) && sameMembers xs ys

end

/-- Whether a list holds a value that is the same as `v`. -/
def isAmong (v : Value) (vs : List Value) : Bool := vs.any fun w => same w v

mutual

/-- A value as it is shown inside a message. -/
def shown : Value → Text
  | null => "None"
  | bool b => if b then "True" else "False"
  | int n => Text.ofInt n
  | real x => Binary64.inMessage.write x
  | text t => Text.quote t
  | list items => '[' :: shownItems items ++ [']']
  | object members => '\x7b' :: shownMembers members ++ ['\x7d']

/-- The items of a list, divided by commas. -/
def shownItems : List Value → Text
  | [] => []
  | [v] => shown v
  | v :: w :: r => shown v ++ ", " ++ shownItems (w :: r)

/-- The members of an object, divided by commas. -/
def shownMembers : List (Text × Value) → Text
  | [] => []
  | [(k, v)] => Text.quote k ++ ": " ++ shown v
  | (k, v) :: m :: r => Text.quote k ++ ": " ++ shown v ++ ", " ++ shownMembers (m :: r)

end

/-- A value as plain text: a text stands for itself, and other values are written as in messages. -/
def plain : Value → Text
  | text t => t
  | v => v.shown

end Value

end ReplyLedger.Json
