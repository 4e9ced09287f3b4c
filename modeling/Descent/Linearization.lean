/-! # The order of a class and its ancestors

A class with several bases inherits along one list: itself, then its ancestors, such that every
class comes before its own bases, and bases come in the order in which they were given.

* **`Linearization.merge?`** — several such lists brought into one: the next class is the first head
  of a list that stands in no tail.
* **`Linearization.heads`** — the heads that are left where no class can come next. -/

namespace Descent.Linearization

variable {α : Type} [DecidableEq α]

/-- Whether a class stands in one of several lists behind the head. -/
def inTail (lists : List (List α)) (candidate : α) : Bool :=
  lists.any fun list => list.tail.contains candidate

/-- The first head of a list that stands in no tail. -/
def pick? (lists : List (List α)) : Option α :=
  (lists.filterMap List.head?).find? fun candidate => !inTail lists candidate

/-- The lists without a class at their heads. -/
def without (chosen : α) (lists : List (List α)) : List (List α) :=
  lists.map fun list => if list.head? = some chosen then list.tail else list

/-- The heads of several lists, each once. -/
def heads (lists : List (List α)) : List α := (lists.filterMap List.head?).eraseDups

/-- Several lists brought into one in so many steps, or the heads on which that fails. -/
def mergeWithin : Nat → List (List α) → Except (List α) (List α)
  | 0, lists => if lists.all List.isEmpty then .ok [] else .error (heads lists)
  | fuel + 1, lists =>
      if lists.all List.isEmpty then .ok []
      else
        match pick? lists with
        | none => .error (heads lists)
        | some chosen => (mergeWithin fuel (without chosen lists)).map (chosen :: ·)

/-- Several lists brought into one, or the heads on which that fails. -/
def merge? (lists : List (List α)) : Except (List α) (List α) :=
  mergeWithin lists.flatten.length lists

end Descent.Linearization
