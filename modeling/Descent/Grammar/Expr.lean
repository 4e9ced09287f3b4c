import Descent.Script
import Descent.Value.Arithmetic

/-! # Expressions of a grammar

* **`Grammar.Scope`** — what an expression can refer to: the values bound by the chains around it,
  and the language to which its rule belongs.
* **`Grammar.Expr`** — constants, references, and what is computed from them.
* **`Grammar.Expr.eval`** — the value of an expression in a scope.
* **`Grammar.Test`** — a comparison of two expressions. -/

namespace Descent.Grammar

/-- What the expressions of a grammar can refer to. -/
structure Scope where
  /-- The language to which the rule belongs. -/
  owner : Owner
  /-- The values bound by chains, the innermost first. -/
  bound : List (String × Value)
  deriving Inhabited

/-- The scope with another value bound. -/
def Scope.bind (scope : Scope) (name : String) (value : Value) : Scope :=
  { scope with bound := (name, value) :: scope.bound }

/-- The value that a name has in a list of bindings. -/
def valueOf (bindings : List (String × Value)) (name : String) : Except Raised Value :=
  match bindings.find? (·.1 == name) with
  | some (_, value) => .ok value
  | none => .error (.unknownName name)

/-- An expression. -/
inductive Expr : Type where
  /-- A constant. -/
  | const (value : Value)
  /-- A value bound by a chain. -/
  | var (name : String)
  /-- An argument of the language. -/
  | param (name : String)
  /-- A tuple. -/
  | tuple (items : List Expr)
  /-- A list. -/
  | list (items : List Expr)
  /-- The texts of several values as one. -/
  | cat (items : List Expr)
  /-- A sequence repeated a number of times. -/
  | rep (item count : Expr)
  /-- A sum. -/
  | add (left right : Expr)
  /-- A number of items or characters. -/
  | len (of : Expr)
  deriving Inhabited, Repr

/-- The value of an expression. -/
def Expr.eval (scope : Scope) : Expr → Except Raised Value
  | .const value => .ok value
  | .var name => valueOf scope.bound name
  | .param name => valueOf scope.owner.arguments name
  | .tuple items => (evalAll items).map .tuple
  | .list items => (evalAll items).map .list
  | .cat items => do return .str (String.join (← (← evalAll items).mapM Value.plainText))
  | .rep item count => do (← item.eval scope).times (← count.eval scope)
  | .add left right => do (← left.eval scope).plus (← right.eval scope)
  | .len of => do (← of.eval scope).size
where
  /-- The values of several expressions. -/
  evalAll : List Expr → Except Raised (List Value)
    | [] => .ok []
    | item :: rest => do return (← item.eval scope) :: (← evalAll rest)

/-- The ways to compare two values. -/
inductive Relation : Type where
  /-- They count as equal. -/
  | equal
  /-- The left one comes before, or after, the right one. -/
  | precedes (sense : Value.Sense)
  deriving DecidableEq, Inhabited, Repr

/-- Whether two values stand in a relation. -/
def Relation.holds (left right : Value) : Relation → Except Raised Bool
  | .equal => .ok (left.same right)
  | .precedes sense => left.precedes sense right

/-- A comparison of two expressions. -/
structure Test where
  /-- The relation. -/
  relation : Relation
  /-- The left side. -/
  left : Expr
  /-- The right side. -/
  right : Expr
  deriving Inhabited, Repr

/-- Whether a comparison holds in a scope. -/
def Test.eval (scope : Scope) (test : Test) : Except Raised Bool := do
  let left ← test.left.eval scope
  let right ← test.right.eval scope
  test.relation.holds left right

end Descent.Grammar
