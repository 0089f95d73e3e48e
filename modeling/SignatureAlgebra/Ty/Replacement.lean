/-
**Replacement: other types in place of names, and the type built again.**

A replacement says what stands in place of each variable and placeholder, and how names of classes,
interfaces and aliases change. Applying it builds unions and intersections again with their
constructor, so members that become equal are one, and an absorbing member takes the whole.

* `Ty.replace` — applies a replacement at every depth.
* `Ty.normalize` — the replacement that replaces nothing: it only builds again.
* `Ty.renameTypes` — replaces every type name.
-/
import SignatureAlgebra.Ty.Compound

namespace SignatureAlgebra

/-- What stands in place of the names in a type. -/
structure Replacement where
  var : Name → Ty
  placeholder : Placeholder → Ty
  singleton : TypeName → TypeName
  head : Head → TypeName → TypeName

namespace Replacement

def identity : Replacement where
  var := .var
  placeholder word := ⟨.placeholder word⟩
  singleton := id
  head _ := id

def ofTypeNames (f : TypeName → TypeName) : Replacement :=
  { identity with singleton := f, head := fun _ => f }

/-- Builds a layer again, over types in which the names are replaced already. -/
def build (r : Replacement) : Shape Ty → Ty
  | .var name => r.var name
  | .placeholder word => r.placeholder word
  | .singleton name => .singletonOf (r.singleton name)
  | .applied head name args => ⟨.applied head (r.head head name) args⟩
  | .compound connective members => .combine connective members
  | s => ⟨s⟩

end Replacement

namespace Ty

/-- Applies a replacement to a type. -/
def replace (r : Replacement) (t : Ty) : Ty := t.fold r.build

/-- Builds a type again: flat, without repetitions, absorbing words absorbed. -/
def normalize (t : Ty) : Ty := t.replace .identity

def renameTypes (f : TypeName → TypeName) (t : Ty) : Ty := t.replace (.ofTypeNames f)

/-- The equation that `replace` solves. -/
theorem replace_node (r : Replacement) (s : Shape Ty) :
    replace r ⟨s⟩ = r.build (s.map (replace r)) := fold_node _ s

end Ty

end SignatureAlgebra
