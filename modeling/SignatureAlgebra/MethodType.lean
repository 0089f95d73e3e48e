/-
**Method types and overloads.**

A method type is one way to call a method: its own type parameters, its parameters, a block that may
be there, and its result. An overload is a method type together with the declaration that it comes
from, if there is one. The declaration is kept for those who report or recognise it and carries no
weight otherwise: overloads are compared by their method types.

* `Overload.ofTypes` — the overload of given parameters and result, from no declaration.
* `MethodType.text` — writes a method type as `[T] (A) { (B) -> C } -> R`.
-/
import SignatureAlgebra.Ty.Text

namespace SignatureAlgebra

/-- Whether a member belongs to the instances of its owner or to the owner itself. -/
inductive MemberLevel where
  | ofInstance
  | ofSingleton
deriving DecidableEq, Repr

/-- The declaration that an overload comes from. -/
structure Origin where
  definedIn : TypeName
  level : MemberLevel
deriving DecidableEq, Repr

/-- The block that a method takes. -/
structure Block where
  isOptional : Bool
  params : Params Ty
  result : Ty
deriving DecidableEq

/-- One way to call a method. -/
structure MethodType where
  typeParams : List Name
  params : Params Ty
  block : Option Block
  result : Ty
deriving DecidableEq

/-- A method type and the declaration it comes from. -/
structure Overload where
  type : MethodType
  origin : Option Origin
deriving DecidableEq

namespace MethodType

/-- A method type without type parameters and without a block. -/
def ofTypes (params : Params Ty) (result : Ty) : MethodType := ⟨[], params, none, result⟩

def blockText (names : Interner) (block : Block) : String :=
  (if block.isOptional then " ?\x7b " else " \x7b ") ++ block.params.typesText names ++ " -> " ++
    block.result.text names ++ " \x7d"

def text (names : Interner) (type : MethodType) : String :=
  (if type.typeParams.isEmpty then ""
    else "[" ++ separated ", " (type.typeParams.map names.text) ++ "] ") ++
  type.params.typesText names ++ (type.block.map (blockText names)).getD "" ++ " -> " ++
    type.result.text names

end MethodType

namespace Overload

/-- The overload of given parameters and result that no declaration gave. -/
def ofTypes (params : Params Ty) (result : Ty) : Overload := ⟨.ofTypes params result, none⟩

/-- The same overload with another result. -/
def withResult (overload : Overload) (result : Ty) : Overload :=
  { overload with type := { overload.type with result := result } }

end Overload

end SignatureAlgebra
