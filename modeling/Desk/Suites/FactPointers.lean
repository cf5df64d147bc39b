import Desk.Lib.JsValue

/-!
# Facts at pointers

The facts of a test case are edited one pointer at a time.
-/

namespace Desk.FactPointers

open JsValue

/-! ## Tokens -/

/-- `replace(/ab/g, c)`, of a pattern of two units. -/
def replacePair (a b c : UInt16) : Units → Units
  | x :: y :: rest => if x = a ∧ y = b then c :: replacePair a b c rest else x :: replacePair a b c (y :: rest)
  | s => s

def unescape (s : Units) : Units := replacePair (unit '~') (unit '0') (unit '~') (replacePair (unit '~') (unit '1') (unit '/') s)

/-- `path.slice(1).split('/')`, unescaped. -/
def tokens (path : Units) : List Units := (path.tail.splitOn (unit '/')).map unescape

inductive PointerError where
  | absolute
  | fieldName
  | elements
  /-- The engine's own `RangeError`. -/
  | invalidLength
deriving DecidableEq

def PointerError.message : PointerError → String
  | absolute => "Use an absolute JSON pointer."
  | fieldName => "This field name must be edited in JSON."
  | elements => "Edit array elements in JSON; removing an index would change the remaining input positions."
  | invalidLength => "Invalid array length"

def forbidden : List Units := [wordText "__proto__", wordText "constructor", wordText "prototype"]

section
variable {ν : Type} (N : Lengths ν)

def pointerGet (root : JsValue ν) (path : Units) : Option (JsValue ν) :=
  if path = [] then some root
  else if path.head? ≠ some (unit '/') then none
  else (tokens path).foldl (fun v k => v.bind fun v => member N v k) (some root)

/-- `at[key]` where it is a container, else the object that takes its place. -/
def child (at_ : JsValue ν) (key : Units) : JsValue ν :=
  match member N at_ key with
  | some below => if below.isContainer then below else obj []
  | none => obj []

def store (at_ : JsValue ν) (key : Units) (x : JsValue ν) : Except PointerError (JsValue ν) :=
  match assign N at_ key x with
  | some v => .ok v
  | none => .error .invalidLength

/-- The walk of `pointerSet` from a container down to the last key, and what it makes of the container. -/
def setAt : List Units → JsValue ν → Option (JsValue ν) → Except PointerError (JsValue ν)
  | [], at_, _ => .ok at_
  | [_], arr _ _, none => .error .elements
  | [key], obj own, none => .ok (obj (erase key own))
  | [_], at_, none => .ok at_
  | [key], at_, some value => store N at_ key value
  | key :: next :: rest, at_, value => (setAt (next :: rest) (child N at_ key) value).bind (store N at_ key)

/-- The copy that is edited; what is no container is replaced. -/
def start (root : JsValue ν) : JsValue ν := if root.isContainer then root else obj []

/-- The copy of the root with the value set at the pointer, or what is there removed. -/
def pointerSet (root : JsValue ν) (path : Units) (value : Option (JsValue ν)) : Except PointerError (JsValue ν) :=
  if path = [] then .ok (value.getD (obj []))
  else if path.head? ≠ some (unit '/') then .error .absolute
  else if (tokens path).any fun k => forbidden.contains k then .error .fieldName
  else setAt N (tokens path) (start root) value

end

end Desk.FactPointers
