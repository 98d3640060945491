/-
# Sentinalysis.Lib.Scope — what a block owns, and when it lets go.

A value made in a block is a temporary of its statement or is bound to a variable.  Temporaries are
dropped at the end of the statement, variables at the end of the block, each in the reverse of the
order in which they were made.  Dropping may have effects, so both operations return what they drop.
-/
import Mathlib.Data.List.Basic

namespace Sentinalysis.Lib

universe u

/-- How a value is held. -/
inductive Binding
  | temporary
  | variable
  deriving DecidableEq, Repr

/-- The values a block owns, oldest first. -/
structure Scope (α : Type u) where
  temporaries : List α := []
  bound : List α := []

namespace Scope

variable {α : Type u} (scope : Scope α)

def owned : List α := scope.temporaries ++ scope.bound

/-- A new value is held. -/
def hold (a : α) : Binding → Scope α
  | .temporary => { scope with temporaries := scope.temporaries ++ [a] }
  | .variable => { scope with bound := scope.bound ++ [a] }

/-- A change made through a borrow. -/
def modify (f : α → α) : Scope α where
  temporaries := scope.temporaries.map f
  bound := scope.bound.map f

/-- The end of a statement: what is dropped, and what is left. -/
def endStatement : List α × Scope α :=
  (scope.temporaries.reverse, { scope with temporaries := [] })

/-- The end of the block. -/
def endBlock : List α × Scope α :=
  (scope.temporaries.reverse ++ scope.bound.reverse, {})

@[simp] theorem owned_empty : ({} : Scope α).owned = [] := rfl

/-- What is left after a statement is what variables hold. -/
@[simp] theorem owned_endStatement : scope.endStatement.2.owned = scope.bound := rfl

@[simp] theorem owned_modify (f : α → α) : (scope.modify f).owned = scope.owned.map f := by
  simp [owned, modify]

@[simp] theorem owned_endBlock : scope.endBlock.2.owned = [] := rfl

@[simp] theorem owned_hold (a : α) (binding : Binding) :
    (({} : Scope α).hold a binding).owned = [a] := by
  cases binding <;> rfl

@[simp] theorem modify_hold (a : α) (binding : Binding) (f : α → α) :
    (({} : Scope α).hold a binding).modify f = ({} : Scope α).hold (f a) binding := by
  cases binding <;> rfl

end Scope

end Sentinalysis.Lib
