/-
**Substitutions: types for variables and placeholders.**

A substitution binds type variables and may fill the slots of the placeholders. Applying it builds
the type again, so a variable bound to `any` inside a union makes the whole union `any`; only the
substitution that binds and fills nothing leaves a type exactly as it is.

* `Substitution.ofLists` — binds variables to types one by one; their numbers must agree.
* `Substitution.apply`, `Substitution.applyParams`, `Substitution.applyMethodType` — a method type's
  own type parameters are not replaced.
* `Substitution.merge`, `Substitution.without` — add the bindings of another, drop bindings.
-/
import SignatureAlgebra.Error
import SignatureAlgebra.MethodType
import SignatureAlgebra.Ty.Replacement

namespace SignatureAlgebra

/-- Types for variables, and for the placeholders whose slot is filled. -/
structure Substitution where
  bindings : NameMap Ty
  slot : Placeholder → Option Ty

namespace Substitution

def empty : Substitution := ⟨.empty, fun _ => none⟩

instance : Inhabited Substitution := ⟨empty⟩

instance : DecidableEq Substitution := fun s s' =>
  decidable_of_iff
    (s.bindings = s'.bindings ∧ s.slot .selfType = s'.slot .selfType ∧
      s.slot .instanceType = s'.slot .instanceType ∧ s.slot .classType = s'.slot .classType) <| by
    constructor
    · rintro ⟨bindings, atSelf, atInstance, atClass⟩
      obtain ⟨_, slot⟩ := s
      obtain ⟨_, slot'⟩ := s'
      have slots : slot = slot' := funext fun word => by cases word <;> assumption
      simp_all
    · rintro rfl; simp

/-- Binds variables to types, one by one. -/
def ofLists (vars : List Name) (types : List Ty) : Except Error Substitution :=
  if vars.length = types.length then .ok ⟨.ofList (vars.zip types), fun _ => none⟩
  else .error (.arityMismatch vars.length types.length)

def fill (s : Substitution) (word : Placeholder) (t : Ty) : Substitution :=
  { s with slot := fun word' => if word' = word then some t else s.slot word' }

/-- Binds one variable, in place of what it was bound to. -/
def bind (s : Substitution) (var : Name) (t : Ty) : Substitution :=
  { s with bindings := s.bindings.insert var t }

def isEmpty (s : Substitution) : Bool :=
  s.bindings.isEmpty && (s.slot .instanceType).isNone && (s.slot .classType).isNone &&
    (s.slot .selfType).isNone

/-- What a substitution puts in place of each variable and placeholder. -/
def replacement (s : Substitution) : Replacement :=
  { Replacement.identity with
    var := fun name => (s.bindings.find? name).getD (.var name)
    placeholder := fun word => (s.slot word).getD ⟨.placeholder word⟩ }

def apply (s : Substitution) (t : Ty) : Ty := if s.isEmpty then t else t.replace s.replacement

def applyParams (s : Substitution) (p : Params Ty) : Params Ty :=
  if s.isEmpty then p else p.map (Ty.replace s.replacement)

/-- Drops the bindings of some variables; slots stay. -/
def without (s : Substitution) (vars : List Name) : Substitution :=
  { s with bindings := vars.foldl NameMap.erase s.bindings }

/-- Applies a substitution to a block, which is always built again. -/
def applyBlock (s : Substitution) (block : Block) : Block :=
  { block with
    params := block.params.map (Ty.replace s.replacement)
    result := block.result.replace s.replacement }

/-- Applies a substitution to a method type; the method's own type parameters shadow its
bindings. -/
def applyMethodType (s : Substitution) (type : MethodType) : MethodType :=
  let s := s.without type.typeParams
  { type with
    params := s.applyParams type.params
    block := type.block.map s.applyBlock
    result := s.apply type.result }

def applyOverload (s : Substitution) (overload : Overload) : Overload :=
  { overload with type := s.applyMethodType overload.type }

/-- Adds what another substitution binds and fills. Where both have something, the other wins if
`overwrite` is set. -/
def merge (s other : Substitution) (overwrite : Bool) : Substitution where
  bindings := other.bindings.toList.foldl
    (fun bindings binding =>
      if overwrite || !bindings.contains binding.1 then bindings.insert binding.1 binding.2
      else bindings)
    s.bindings
  slot word :=
    match s.slot word, other.slot word with
    | mine, none => mine
    | none, some t => some t
    | some mine, some t => if overwrite then some t else some mine

def slotTexts (names : Interner) (s : Substitution) : List String :=
  [Placeholder.instanceType, .classType, .selfType].filterMap fun word =>
    (s.slot word).map fun t => word.text ++ " => " ++ t.text names

/-- Writes a substitution: its bindings in the order of their texts, then its slots. -/
def text (names : Interner) (s : Substitution) : String :=
  let bindings := s.bindings.toList.map fun binding =>
    names.text binding.1 ++ " => " ++ binding.2.text names
  "\x7b " ++ separated ", " (bindings.mergeSort (fun a b => decide (a ≤ b)) ++ s.slotTexts names) ++
    " \x7d"

end Substitution

end SignatureAlgebra
