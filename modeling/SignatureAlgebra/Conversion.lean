/-
**Between declared types and types.**

From declared types: `T?` is a union with `nil`, unions and intersections go through their
constructor, labels and trailing positionals are dropped. To declared types: every node is added
after those below it, parameters come without labels, and an alias with arguments is refused, since no
declaration can express one.

* `Arena.toTy` — the type that a node stands for, found through its tree.
* `Memo.toTy` — the same, with every node on the way remembered; `Memo.params` for functions.
* `Ty.declare`, `Ty.declareFunction`, `MethodType.declare` — add the nodes of a type, a function, a
  method type; the nodes added before a refusal remain.
-/
import SignatureAlgebra.Declared.Arena
import SignatureAlgebra.Error
import SignatureAlgebra.MethodType

namespace SignatureAlgebra

/-! ### From declared types -/

def Declared.toTy : Declared Ty → Ty
  | base word => ⟨.base word⟩
  | placeholder word => ⟨.placeholder word⟩
  | var name => .var name
  | literal value => .literal value
  | logic evidence => .logic evidence
  | singleton name => .singletonOf name
  | classInstance name args => .instanceOf name args
  | interface name args => .interfaceOf name args
  | aliasRef name => .aliasOf name []
  | compound connective members => .combine connective members
  | optional inner => inner.optional
  | tuple members => .tuple members
  | record fields => .record fields
  | proc fn => .proc fn.params.toParams fn.result

/-- The type that a declared tree stands for. -/
def DeclaredTree.toTy (t : DeclaredTree) : Ty := t.fold Declared.toTy

/-- The type that a node stands for. -/
def Arena.toTy (arena : Arena) (id : NodeId) : Ty := (arena.tree id).toTy

/-- The types of the nodes met so far, by the number of the arena and of the node. -/
structure Memo where
  entries : List ((Nat × NodeId) × Ty)

namespace Memo

def empty : Memo := ⟨[]⟩

def size (memo : Memo) : Nat := memo.entries.length

def find? (memo : Memo) (key : Nat × NodeId) : Option Ty := memo.entries.lookup key

def insert (memo : Memo) (key : Nat × NodeId) (t : Ty) : Memo := ⟨(key, t) :: memo.entries⟩

/-- Finds the type of a node, followed for at most `depth` steps, and remembers that of every node on
the way. A remembered type is not looked for again. -/
def toTyWithin (arena : Arena) : Nat → NodeId → StateM Memo Ty
  | 0, _ => return .bottom
  | depth + 1, id => do
    match (← get).find? (arena.id, id) with
    | some t => return t
    | none =>
      let node := ((arena.get? id).getD Arena.missing).withoutTrailing
      let t := (← node.mapM (toTyWithin arena depth)).toTy
      modify (·.insert (arena.id, id) t)
      return t

/-- Finds the type of a node and remembers that of every node on the way. -/
def toTy (arena : Arena) (id : NodeId) : StateM Memo Ty := toTyWithin arena (id + 1) id

/-- Finds the parameters of a function; its result is left alone. -/
def params (arena : Arena) (params : DeclaredParams NodeId) : StateM Memo (Params Ty) := do
  return (← params.withoutTrailing.mapM (toTy arena)).toParams

end Memo

/-! ### To declared types -/

/-- Adding nodes to an arena, with the arena kept when it fails. -/
abbrev Declaring : Type → Type := ExceptT Error (StateM Arena)

/-- The declared layer of a layer whose alias, if it is one, has no arguments. -/
def Shape.toDeclared {α : Type} : Shape α → Declared α
  | base word => .base word
  | placeholder word => .placeholder word
  | var name => .var name
  | literal value => .literal value
  | logic evidence => .logic evidence
  | singleton name => .singleton name
  | applied .ofClass name args => .classInstance name args
  | applied .ofInterface name args => .interface name args
  | applied .ofAlias name _ => .aliasRef name
  | compound connective members => .compound connective members
  | tuple members => .tuple members
  | record fields => .record fields
  | proc params result => .proc ⟨.ofParams params, result⟩

/-- Adds the nodes below a layer, then the node of the layer. -/
def Shape.declare : Shape (Declaring NodeId) → Declaring NodeId
  | applied .ofAlias name (_ :: _) => throw (.aliasWithArguments name)
  | s => do
    let layer ← s.mapM id
    Arena.alloc (M := Id) layer.toDeclared

def Ty.declare (t : Ty) : Declaring NodeId := t.fold Shape.declare

def Ty.declareFunction (params : Params Ty) (result : Ty) : Declaring (DeclaredFunction NodeId) := do
  let params ← params.mapM Ty.declare
  let result ← result.declare
  return ⟨.ofParams params, result⟩

/-- Adds the nodes of a method type: its parameters and result, then those of its block. -/
def MethodType.declare (type : MethodType) : Declaring (DeclaredMethod NodeId) := do
  let function ← Ty.declareFunction type.params type.result
  match type.block with
  | none => return ⟨type.typeParams, function, none⟩
  | some block =>
    let blockFunction ← Ty.declareFunction block.params block.result
    return ⟨type.typeParams, function, some ⟨blockFunction, !block.isOptional⟩⟩

end SignatureAlgebra
