/-
**Interfaces: what can be called on a type.**

An interface gives the overloads of every method name, to be tried from front to back. `JoinRule.join`
keeps what two interfaces share, `Interface.extend` lays one over another, and `Interface.put` and
`Interface.putFirst` refine single methods.
-/
import SignatureAlgebra.Join

namespace SignatureAlgebra

/-- The methods that can be called on a type, for a given receiver. -/
structure Interface where
  /-- What `self` means in the overloads. -/
  selfType : Ty
  /-- Whether private methods are there. -/
  includesPrivate : Bool
  /-- The overloads of each method, front to back. -/
  methods : NameMap (List Overload)
deriving DecidableEq

namespace Interface

/-- No methods. -/
def empty (selfType : Ty) (includesPrivate : Bool) : Interface := ⟨selfType, includesPrivate, .empty⟩

/-- The overloads of a method. -/
def find? (i : Interface) (name : Name) : Option (List Overload) := i.methods.find? name

/-- Gives a method these overloads and no others. -/
def put (i : Interface) (name : Name) (overloads : List Overload) : Interface :=
  { i with methods := i.methods.insert name overloads }

/-- Gives a method these overloads in front of those it has. -/
def putFirst (i : Interface) (name : Name) (overloads : List Overload) : Interface :=
  i.put name (overloads ++ (i.find? name).getD [])

/-- Takes over every method of `other`; where both have one, that of `other` stays. -/
def extend (i other : Interface) : Interface :=
  other.methods.toList.foldl (fun i binding => i.put binding.1 binding.2) i

/-- All methods of some interfaces; of a method that several have, that of the last one. -/
def mergeAll (selfType : Ty) (includesPrivate : Bool) (interfaces : List Interface) : Interface :=
  interfaces.foldl extend (.empty selfType includesPrivate)

end Interface

namespace JoinRule

/-- Appends an overload unless one of its method type is there. -/
def addJoined (overloads : List Overload) (overload : Overload) : List Overload :=
  if overload.type ∈ overloads.map Overload.type then overloads else overloads ++ [overload]

/-- The joins of every left with every right overload, each method type once. -/
def joinPairs (rule : JoinRule) (left right : List Overload) : List Overload :=
  (left.flatMap fun l => right.filterMap fun r => rule l r).foldl addJoined []

/-- The overloads of a method that both sides have. Lists that agree are kept; of others there must be
a join. -/
def joinOverloads (rule : JoinRule) (left right : List Overload) : Option (List Overload) :=
  if left.map Overload.type = right.map Overload.type then some left
  else
    match rule.joinPairs left right with
    | [] => none
    | joined => some joined

/-- The methods that both interfaces have and whose overloads can be joined, for a receiver. -/
def join (rule : JoinRule) (selfType : Ty) (includesPrivate : Bool) (left right : Interface) :
    Interface :=
  ⟨selfType, includesPrivate,
    left.methods.filterMap fun name overloads =>
      (right.find? name).bind (rule.joinOverloads overloads)⟩

/-- Joins interfaces from left to right; without interfaces there are no methods. -/
def joinAll (rule : JoinRule) (selfType : Ty) (includesPrivate : Bool) :
    List Interface → Interface
  | [] => .empty selfType includesPrivate
  | first :: rest => rest.foldl (rule.join selfType includesPrivate) first

end JoinRule

end SignatureAlgebra
