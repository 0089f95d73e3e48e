/-
**Names in types.**

* `Analysis.resolveToAbsolute` — makes every name in a type absolute, as seen from a namespace.
* `Analysis.instanceType` — the type of the instances of a class or module.
-/
import SignatureAlgebra.Analysis.Basic

namespace SignatureAlgebra.Analysis

/-- What a name means inside a namespace; a name that means nothing there is counted from the
root. -/
def absoluteName (a : Analysis) (context : Namespace) (name : TypeName) : TypeName :=
  (a.env.resolve? name context).getD name.toAbsolute

/-- Makes every name in a type absolute. The type is declared, its declaration copied with the names
changed, and the copy turned into a type again. -/
def resolveToAbsolute (a : Analysis) (t : Ty) (context : Namespace) : Except Error Ty :=
  match t.declare (.empty 0) with
  | (.error e, _) => .error e
  | (.ok id, arena) =>
    let (copy, arena) := Id.run (Arena.mapNames (M := Id) (a.absoluteName context) id arena)
    .ok (arena.toTy copy)

/-- The type of the instances of a class or module; without arguments every type parameter is
`any`. -/
def instanceType (a : Analysis) (name : TypeName) (args : Option (List Ty)) : Except Error Ty := do
  if (a.env.classForm? name).isNone then throw (.notAClass name)
  let definition ← a.env.singletonDefinition name
  let expected := definition.typeParams.length
  match args with
  | none => return .instanceOf name (List.replicate expected .any)
  | some args =>
    if args.length = expected then return .instanceOf name args
    else throw (.argumentCount name expected args.length)

end SignatureAlgebra.Analysis
