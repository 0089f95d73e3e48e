/-
**The interface of a type.**

Named types read their members from the environment; every other type borrows the interface of the
types behind it and refines it.

* `Analysis.memberInterface` — the visible members of a definition, instantiated for a receiver.
* `Analysis.instanceInterface`, `singletonInterface`, `interfaceInterface` — named types.
* `Analysis.tupleInterface`, `recordInterface`, `procInterface` — the class behind a structure, with
  exact overloads in front.
* `Analysis.interface`, `Analysis.interfaceFor` — any type, with itself or a given type as the
  receiver: a union has the methods that all its members have, an intersection those of any member, an
  alias those of what it stands for, and `self` those of the receiver.

Going from an alias to its body, and from `self` to the receiver, are the steps that do not lead to a
part of the type at hand. The aliases on the way are kept in the session, so one that is met again is
found; `self` is followed once. So the number of such steps is bounded as for aliases alone.
-/
import SignatureAlgebra.Analysis.Alias
import SignatureAlgebra.Analysis.Instantiation

namespace SignatureAlgebra.Analysis

/-! ### Named types -/

def memberOverloads (a : Analysis) (s : Substitution) (selfType : Ty) (member : Member) :
    StateM Session (List Overload) :=
  member.overloads.mapM fun declared => do
    let overload ← a.instantiate declared.signature selfType (some s) (some declared.origin)
    return a.withEvidence member.name overload

/-- Members, instantiated for a receiver one after the other. -/
def membersFrom (a : Analysis) (s : Substitution) (selfType : Ty) :
    List Member → Interface → StateM Session Interface
  | [], i => return i
  | member :: rest, i => do
    let overloads ← a.memberOverloads s selfType member
    a.membersFrom s selfType rest (i.put member.name overloads)

/-- The visible members of a definition, instantiated for a receiver. -/
def memberInterface (a : Analysis) (definition : Definition) (s : Substitution)
    (includePrivate : Bool) (selfType : Ty) : StateM Session Interface :=
  a.membersFrom s selfType (definition.members.filter fun m => includePrivate || !m.isPrivate)
    (.empty selfType includePrivate)

def instanceInterface (a : Analysis) (name : TypeName) (args : List Ty) (includePrivate : Bool)
    (selfType : Ty) : AnalysisM Interface := do
  let definition ← a.env.instanceDefinition name
  let s ← Substitution.ofLists definition.typeParams args
  let s := s.fill .instanceType (.instanceOf name (List.replicate args.length .any))
    |>.fill .classType (.singletonOf name) |>.fill .selfType selfType
  a.memberInterface definition s includePrivate selfType

def interfaceInterface (a : Analysis) (name : TypeName) (args : List Ty) (includePrivate : Bool)
    (selfType : Ty) : AnalysisM Interface := do
  let definition ← a.env.interfaceDefinition name
  let s ← Substitution.ofLists definition.typeParams args
  a.memberInterface definition (s.fill .selfType selfType) includePrivate selfType

def singletonInterface (a : Analysis) (name : TypeName) (includePrivate : Bool) (selfType : Ty) :
    AnalysisM Interface := do
  let definition ← a.env.singletonDefinition name
  let untyped := List.replicate definition.typeParams.length .any
  let s := Substitution.empty.fill .instanceType (.instanceOf name untyped)
    |>.fill .classType (.singletonOf name) |>.fill .selfType selfType
  a.memberInterface definition s includePrivate selfType

/-! ### Structures -/

def booleanInterface (a : Analysis) (includePrivate : Bool) (selfType : Ty) :
    AnalysisM Interface := do
  let interfaces ← a.core.booleanClasses.mapM fun name =>
    a.instanceInterface name [] includePrivate selfType
  return a.joinRule.joinAll selfType includePrivate interfaces

/-- The overloads of reading and of writing one place of a structure. -/
def placeOverloads (places : List (Literal × Ty)) : List Overload × List Overload :=
  (places.map fun place => .ofTypes (.positional [.literal place.1]) place.2,
    places.map fun place => .ofTypes (.positional [.literal place.1, place.2]) place.2)

/-- Puts the overloads of single places in front of those for reading and writing any element. -/
def refinePlaces (a : Analysis) (i : Interface) (places : List (Literal × Ty)) : Interface :=
  let (reading, writing) := placeOverloads places
  (i.putFirst a.core.elementGet reading).putFirst a.core.elementSet writing

/-- The members of a tuple under their indices, from `start` on. -/
def indexed (start : Nat) : List Ty → List (Literal × Ty)
  | [] => []
  | t :: rest => (.integer start, t) :: indexed (start + 1) rest

/-- The interface of a tuple: an array that knows each of its places. -/
def tupleInterface (a : Analysis) (members : List Ty) (includePrivate : Bool) (selfType : Ty) :
    AnalysisM Interface := do
  let array ← a.instanceInterface a.core.array [.union members] includePrivate selfType
  let refined := a.refinePlaces array (indexed 0 members)
  return (refined.put a.core.first [.ofTypes .empty (members.head?.getD .nil)]).put
    a.core.last [.ofTypes .empty (members.getLast?.getD .nil)]

/-- The interface of a record: a hash that knows each of its fields. -/
def recordInterface (a : Analysis) (fields : List (Literal × Ty)) (includePrivate : Bool)
    (selfType : Ty) : AnalysisM Interface := do
  let key := Ty.union (fields.map fun field => .literal field.1)
  let value := Ty.union (fields.map Prod.snd)
  let hash ← a.instanceInterface a.core.hash [key, value] includePrivate selfType
  return a.refinePlaces hash fields

/-- The interface of a proc type: a proc that knows how it is called. -/
def procInterface (a : Analysis) (params : Params Ty) (result : Ty) (includePrivate : Bool)
    (selfType : Ty) : AnalysisM Interface := do
  let base ← a.instanceInterface a.core.proc [] includePrivate selfType
  let exact := Overload.ofTypes params result
  return (base.put a.core.elementGet [exact]).put a.core.call [exact]

/-! ### Any type -/

/-- Computes with an alias marked as being computed, whether that succeeds or not. -/
def computing {α : Type} (t : Ty) (action : AnalysisM α) : AnalysisM α := fun s =>
  let (result, s) := action { s with receivers := t :: s.receivers }
  (result, { s with receivers := s.receivers.tail })

/-- The interface of a type whose members' interfaces are computed already. `follow` computes, for a
receiver, the interface of a type that is not a part of this one. -/
def receiverLayer (a : Analysis) (includePrivate : Bool) (follow : Ty → Ty → AnalysisM Interface)
    (selfType t : Ty) : Shape (AnalysisM Interface) → AnalysisM Interface
  | .applied .ofAlias _ _ => do
    if t ∈ (← get).receivers then throw (.recursiveAlias t)
    let expanded ← a.expandDeep t
    computing t (follow selfType expanded)
  | .placeholder .selfType =>
    if selfType = .selfType then throw .selfWithoutReceiver else follow .selfType selfType
  | .compound .union interfaces => do
    return a.joinRule.joinAll selfType includePrivate (← interfaces.mapM id)
  | .compound .intersection interfaces => do
    return .mergeAll selfType includePrivate (← interfaces.mapM id)
  | _ =>
    match t with
    | .instanceOf name args => a.instanceInterface name args includePrivate selfType
    | .interfaceOf name args => a.interfaceInterface name args includePrivate selfType
    | .singletonOf name => a.singletonInterface name includePrivate selfType
    | .literal value =>
      a.instanceInterface (a.core.literalOwner value) [] includePrivate selfType
    | .nil => a.instanceInterface a.core.nilClass [] includePrivate selfType
    | .boolean => a.booleanInterface includePrivate selfType
    | .logic _ => a.booleanInterface includePrivate selfType
    | .tuple members => a.tupleInterface members includePrivate selfType
    | .record fields => a.recordInterface fields includePrivate selfType
    | .proc params result => a.procInterface params result includePrivate selfType
    | _ => throw (.invalidReceiver t)

/-- The interface of a type for a receiver, with at most `bound` steps to types that are not parts of
the one at hand. -/
def interfaceWithin (a : Analysis) (includePrivate : Bool) : Nat → Ty → Ty → AnalysisM Interface
  | 0, selfType =>
    Ty.recurse (a.receiverLayer includePrivate (fun _ t => throw (.recursiveAlias t)) selfType)
  | bound + 1, selfType =>
    Ty.recurse (a.receiverLayer includePrivate (a.interfaceWithin includePrivate bound) selfType)

/-- The interface of a type, with `selfType` as the receiver. Private members are there only if asked
for. -/
def interfaceFor (a : Analysis) (t : Ty) (includePrivate : Bool) (selfType : Ty) :
    AnalysisM Interface :=
  a.interfaceWithin includePrivate (a.env.aliasBound + 2) selfType t

/-- The interface of a type, with itself as the receiver. -/
def interface (a : Analysis) (t : Ty) (includePrivate : Bool) : AnalysisM Interface :=
  a.interfaceFor t includePrivate t

end SignatureAlgebra.Analysis
