/-
**Following aliases.**

An alias stands for its declared body. Bodies may refer to aliases again, also in a circle, so
following them keeps the aliases on the way and fails where one is met again. No way is longer than
the number of declared aliases, apart from the alias it starts at, and that number bounds the steps.

* `Analysis.unfold` — the body of an alias, one level deep, remembered by name.
* `Analysis.expandDeep` — follows aliases at the top and in the members of unions.
* `Analysis.unwrapOptional` — what remains of a type without `nil` and `false`, and those.
-/
import SignatureAlgebra.Analysis.Basic

namespace SignatureAlgebra

/-- How many aliases in a row may be followed before one must have been met twice. -/
def Environment.aliasBound (env : Environment) : Nat := env.aliases.length + 2

namespace Analysis

/-- The body of an alias, one level deep. -/
def unfold (a : Analysis) (name : TypeName) : AnalysisM Ty := do
  match (← get).unfolded.lookup name with
  | some body => return body
  | none =>
    let id ← a.env.aliasBody name
    let body ← a.toTy id
    modify fun s => { s with unfolded := (name, body) :: s.unfolded }
    return body

/-- Follows an alias one level; any other type stays. -/
def expandOne (a : Analysis) : Ty → AnalysisM Ty
  | .aliasOf name _ => a.unfold name
  | t => return t

/-- Expands a type whose members are expanded already, where `follow` expands the body of an alias
with that alias on the way. -/
def expandLayer (a : Analysis) (follow : List Ty → Ty → AnalysisM Ty) (path : List Ty) (t : Ty) :
    Shape (AnalysisM Ty) → AnalysisM Ty
  | .applied .ofAlias name _ => do
    if t ∈ path then throw (.recursiveAlias t)
    follow (t :: path) (← a.unfold name)
  | .compound .union members => return .union (← members.mapM id)
  | _ => return t

/-- Expands a type, with at most `bound` aliases in a row followed beyond those of `path`. -/
def expandWithin (a : Analysis) : Nat → List Ty → Ty → AnalysisM Ty
  | 0, path => Ty.recurse (a.expandLayer (fun _ t => throw (.recursiveAlias t)) path)
  | bound + 1, path => Ty.recurse (a.expandLayer (a.expandWithin bound) path)

/-- Follows aliases until the type is none, also in the members of unions. Two members may follow the
same alias; an alias that is met again while it is being followed is an error. -/
def expandDeep (a : Analysis) (t : Ty) : AnalysisM Ty := a.expandWithin a.env.aliasBound [] t

/-- Follows aliases one level at a time until the type is none, at most `bound` of them beyond those
of `path`. -/
def followWithin (a : Analysis) : Nat → List Ty → Ty → AnalysisM Ty
  | bound, path, .aliasOf name args => do
    if .aliasOf name args ∈ path then throw (.recursiveAlias (.aliasOf name args))
    let body ← a.unfold name
    match bound with
    | 0 => throw (.recursiveAlias body)
    | bound + 1 => a.followWithin bound (.aliasOf name args :: path) body
  | _, _, t => return t

/-- Follows aliases until the type is none; members of unions stay. -/
def follow (a : Analysis) (t : Ty) : AnalysisM Ty := a.followWithin a.env.aliasBound [] t

/-- Splits a type into what a condition takes for true and what it takes for false. Aliases are
followed first; only a union is split, and the second part is missing if nothing belongs to it. -/
def unwrapOptional (a : Analysis) (t : Ty) : AnalysisM (Ty × Option Ty) := do
  match ← a.follow t with
  | ⟨.compound .union members⟩ =>
    let falsy := members.filter Ty.isFalsyConstant
    let truthy := members.filter fun member => !member.isFalsyConstant
    return (.union truthy, if falsy.isEmpty then none else some (.union falsy))
  | t => return (t, none)

end Analysis

end SignatureAlgebra
