/-
**Joining overloads.**

An overload that is safe to call on each of two receivers demands what both demand and promises what
either promises: parameters are intersected, results united. Only overloads of one form can be
joined.

* `Overload.join?` — the structural join.
* `JoinRule` — how the overloads of the members of a union are joined; the structural rule is the
  usual one.
-/
import SignatureAlgebra.MethodType

namespace SignatureAlgebra

/-- Joins two method types with the same type parameters, block and parameter shape. -/
def MethodType.join? (left right : MethodType) : Option MethodType :=
  if left.typeParams = right.typeParams ∧ left.block = right.block then
    (left.params.zipWith? (fun l r => Ty.intersection [l, r]) right.params).map fun params =>
      { left with params := params, result := Ty.union [left.result, right.result] }
  else none

/-- Joins two overloads: equal ones are joined to the left one, others of one form to an overload
that no declaration gave. -/
def Overload.join? (left right : Overload) : Option Overload :=
  if left.type = right.type then some left
  else (left.type.join? right.type).map fun type => ⟨type, none⟩

/-- A rule that joins two overloads or finds that they have no join. -/
abbrev JoinRule : Type := Overload → Overload → Option Overload

namespace JoinRule

/-- Joins overloads of one form. -/
def structural : JoinRule := Overload.join?

/-- Joins nothing. -/
def never : JoinRule := fun _ _ => none

/-- Takes the left overload. -/
def leftmost : JoinRule := fun left _ => some left

end JoinRule

end SignatureAlgebra
