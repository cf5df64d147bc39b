import Desk.Lib.JsonStringify
import Desk.Packs.DocumentText

/-!
# The identity of a JSON value

`jsonIdentity` writes a value with the members of every object in one order, so
that values with one text are the same up to the order of members.
-/

namespace Desk

namespace Identity

open DocumentText (isIndexName)

section
variable {ν : Type} {α : Type}

/-- Sorted by code units; the object then lists index names first, in the order of the numbers. -/
def arrangeMembers (members : List (Units × α)) : List (Units × α) :=
  let ordered := members.insertionSort fun a b => a.1.map UInt16.toNat ≤ b.1.map UInt16.toNat
  (ordered.filter fun m => isIndexName m.1).insertionSort (fun a b => digitsValue a.1 ≤ digitsValue b.1) ++
    ordered.filter fun m => !isIndexName m.1

def jsonIdentity (N : Numbers ν) (v : Value ν) : Units := stringifyText (v.arranged arrangeMembers N.text)

/-- The same value up to the order of members, its numbers written alike. -/
def SameJson (N : Numbers ν) (v v' : Value ν) : Prop := v.Same (fun n m => N.text n = N.text m) v'

theorem arrangeMembers_perm {α : Type} (members : List (Units × α)) : (arrangeMembers members).Perm members := by
  unfold arrangeMembers
  refine ((List.perm_insertionSort _ _).append_right _).trans ?_
  exact (List.filter_append_perm _ _).trans (List.perm_insertionSort _ _)

theorem same_of_jsonIdentity {v v' : Value ν} (h : jsonIdentity N v = jsonIdentity N v') : SameJson N v v' :=
  Value.same_of_arranged arrangeMembers_perm _ _ v v' (stringifyText_injective h)

end

end Identity

end Desk
