/-
**Arenas: declared types as numbered nodes.**

An arena keeps declared layers whose places hold node numbers. A node is added after the nodes it
refers to and never changes, so every place of a node holds a smaller number than the node's own
(`Arena.Acyclic`), and the tree below a node is found by going down from number to smaller number.

* `Arena.alloc` — adds a node.
* `Arena.tree` — the declared type with everything below it.
* `Arena.mapNames`, `Arena.mapFunctionNames` — copy a tree with other type names.
-/
import SignatureAlgebra.Declared.Tree

namespace SignatureAlgebra

/-- The number of a node in its arena. -/
abbrev NodeId : Type := Nat

/-- Nodes in the order in which they were added, and the number of the arena itself. -/
structure Arena where
  id : Nat
  nodes : Array (Declared NodeId)

namespace Arena

def empty (id : Nat) : Arena := ⟨id, #[]⟩

def size (arena : Arena) : Nat := arena.nodes.size

def isEmpty (arena : Arena) : Bool := arena.nodes.isEmpty

def get? (arena : Arena) (id : NodeId) : Option (Declared NodeId) := arena.nodes[id]?

def push (arena : Arena) (node : Declared NodeId) : Arena :=
  { arena with nodes := arena.nodes.push node }

variable {M : Type → Type} [Monad M]

/-- Adds a node and gives its number. -/
def alloc (node : Declared NodeId) : StateT Arena M NodeId :=
  modifyGet fun arena => (arena.size, arena.push node)

/-- Every place of every node holds a smaller number than the node's own. -/
def Acyclic (arena : Arena) : Prop :=
  ∀ id node, arena.get? id = some node → ∀ child ∈ node.toList, child < id

/-- The nodes of `arena` are those that `later` starts with. -/
def IsStartOf (arena later : Arena) : Prop :=
  ∀ id, id < arena.size → later.get? id = arena.get? id

/-- What stands for a node that is not there. -/
def missing {α : Type} : Declared α := .base .bottom

/-- The tree below a node, followed for at most `depth` steps. -/
def treeWithin (arena : Arena) : Nat → NodeId → DeclaredTree
  | 0, _ => ⟨missing⟩
  | depth + 1, id => ⟨((arena.get? id).getD missing).map (arena.treeWithin depth)⟩

/-- The tree below a node; numbers fall at every step, so the node's own number bounds the steps. -/
def tree (arena : Arena) (id : NodeId) : DeclaredTree := arena.treeWithin (id + 1) id

/-- Copies the tree below a node, followed for at most `depth` steps, with its type names changed. A
node in which nothing can be renamed is shared instead of copied. -/
def mapNamesWithin (rename : TypeName → M TypeName) : Nat → NodeId → StateT Arena M NodeId
  | 0, id => return id
  | depth + 1, id => do
    match (← get).get? id with
    | none => return id
    | some node =>
      if node.isLeaf then return id
      else
        let copy ← node.traverse (fun name => StateT.lift (rename name)) (mapNamesWithin rename depth)
        alloc copy

/-- Copies the tree below a node with its type names changed by an action, in reading order. -/
def mapNames (rename : TypeName → M TypeName) (id : NodeId) : StateT Arena M NodeId :=
  mapNamesWithin rename (id + 1) id

/-- Copies everything below a function with its type names changed by an action. -/
def mapFunctionNames (rename : TypeName → M TypeName) (fn : DeclaredFunction NodeId) :
    StateT Arena M (DeclaredFunction NodeId) :=
  fn.mapM (mapNames rename)

end Arena

end SignatureAlgebra
