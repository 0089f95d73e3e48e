/-
**From declared overloads to overloads.**

The type parameters of a method are its own: a receiver whose type has a variable of the same name must
not be tied to them. A parameter that is free in the receiver's type is therefore given a name with a
number that was not used yet.

* `Session.freshName` — a name with the next number.
* `Analysis.instantiate` — the overload that a signature declares, for a receiver and a substitution.
* `Analysis.predicateEvidence?` — what the result of a predicate of a base class says, which takes the
  place of the declared result.
-/
import SignatureAlgebra.Analysis.Basic
import SignatureAlgebra.Substitution

namespace SignatureAlgebra

/-- How many numbers there are for fresh variables. After the last one they begin again at 0. -/
def Session.freshNumbers : Nat := 4294967296

/-- A name made of an old one and the next number, such as `T(3)`. -/
def Session.freshName (base : Name) : StateM Session Name := fun s =>
  let number := s.nextFresh % freshNumbers
  let (name, names) := s.names.intern (s.names.text base ++ "(" ++ toString number ++ ")")
  (name, { s with names := names, nextFresh := s.nextFresh + 1 })

/-- Gives such a name to each type parameter that is among `taken`, and binds the old name to the new
variable. -/
def Session.renameTaken (taken : List Name) :
    List Name → Substitution → StateM Session (List Name × Substitution)
  | [], clashes => return ([], clashes)
  | name :: rest, clashes => do
    if name ∈ taken then
      let fresh ← freshName name
      let (renamed, clashes) ← renameTaken taken rest (clashes.bind name (.var fresh))
      return (fresh :: renamed, clashes)
    else
      let (renamed, clashes) ← renameTaken taken rest clashes
      return (name :: renamed, clashes)

namespace Analysis

/-- The overload that a signature declares. Type parameters that are free in the receiver's type are
renamed; the substitution, where there is one, comes after that and wins over it. -/
def instantiate (a : Analysis) (signature : DeclaredMethod NodeId) (selfType : Ty)
    (substitution : Option Substitution) (origin : Option Origin) : StateM Session Overload := do
  let (typeParams, clashes) ← Session.renameTaken selfType.freeVars signature.typeParams .empty
  let s := match substitution with
    | none => clashes
    | some substitution => clashes.merge substitution true
  let params ← a.params signature.function.params
  let result ← a.toTy signature.function.result
  let block ← match signature.block with
    | none => pure none
    | some block => do
      let params ← a.params block.function.params
      let result ← a.toTy block.function.result
      pure (some (Block.mk (!block.required) (s.applyParams params) (s.apply result)))
  return ⟨⟨typeParams, s.applyParams params, block, s.apply result⟩, origin⟩

/-- What the result of a method defined there says, if it is one of the predicates of the base
classes. -/
def predicateEvidence? (a : Analysis) (method : Name) (origin : Origin) : Option Evidence :=
  let core := a.core
  if origin.level = .ofSingleton then none
  else if origin.definedIn = core.object then
    if method ∈ [core.isA, core.kindOf, core.instanceOf] then some .receiverIsArg
    else if method = core.isNil then some .receiverIsNil
    else none
  else if origin.definedIn = core.nilClass ∧ method = core.isNil then some .receiverIsNil
  else if origin.definedIn = core.basicObject ∧ method = core.not then some .not
  else if origin.definedIn = core.moduleClass ∧ method = core.caseEq then some .argIsReceiver
  else none

/-- Puts what the result of a predicate of the base classes says in place of its result. -/
def withEvidence (a : Analysis) (method : Name) (overload : Overload) : Overload :=
  match overload.origin.bind (a.predicateEvidence? method) with
  | some evidence => overload.withResult (.logic evidence)
  | none => overload

end Analysis

end SignatureAlgebra
