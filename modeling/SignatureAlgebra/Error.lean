/-
**What can go wrong, and how it is worded.**

An error holds the types, names and counts it is about; `Error.message` writes them out.
-/
import SignatureAlgebra.Ty.Text

namespace SignatureAlgebra

/-- The causes of failure. -/
inductive Error where
  /-- A type that cannot receive calls. -/
  | invalidReceiver (type : Ty)
  /-- The members of `self` were asked for with nothing but `self` as the receiver. -/
  | selfWithoutReceiver
  /-- An alias that is met again while it is being expanded. -/
  | recursiveAlias (type : Ty)
  /-- A name that no class or module has. -/
  | notAClass (name : TypeName)
  /-- A class that is given the wrong number of type arguments. -/
  | argumentCount (name : TypeName) (expected found : Nat)
  /-- An alias with arguments, which no declaration can express. -/
  | aliasWithArguments (name : TypeName)
  /-- Variables that are bound to a list of types of another length. -/
  | arityMismatch (vars types : Nat)
  /-- A name that nothing declared has. -/
  | unknownType (name : TypeName)
  /-- A name that no declared alias has. -/
  | unknownAlias (name : TypeName)
deriving DecidableEq

/-- The wording of an error. -/
def Error.message (names : Interner) : Error → String
  | invalidReceiver type => "invalid receiver type: " ++ type.text names
  | selfWithoutReceiver => "interface of `self` requested without a concrete receiver"
  | recursiveAlias type => "recursive type alias: " ++ type.text names
  | notAClass name => "not a class or module: " ++ name.text names
  | argumentCount name expected found =>
    name.text names ++ " takes " ++ toString expected ++ " type arguments, " ++ toString found ++
      " given"
  | aliasWithArguments name =>
    "alias type with arguments is not supported: " ++ name.text names
  | arityMismatch vars types =>
    "substitution arity mismatch: " ++ toString vars ++ " variables, " ++ toString types ++
      " types"
  | unknownType name => "unknown type name: " ++ name.text names
  | unknownAlias name => "unknown alias: " ++ name.text names

end SignatureAlgebra
