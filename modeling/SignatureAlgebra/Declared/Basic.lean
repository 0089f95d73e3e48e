/-
**Declared types: types as signatures write them.**

A declared type is one layer, a `Declared`, whose places hold further declared types: nodes of an
arena, or trees. Compared with a `Shape` it also has `T?`, parameters may carry a label, a function
may have positionals after its rest, keywords are a list as written, and aliases take no arguments.

* `Declared.toList`, `Declared.map`, `Declared.traverse` — the places of a layer in reading order: a
  name before its arguments, parameters before the result.
* `DeclaredParams.toParams` and `DeclaredParams.ofParams` — to and from parameter lists.
-/
import SignatureAlgebra.Ty.Basic

namespace SignatureAlgebra

/-- A parameter of a declared function; its label is for the reader only. -/
structure DeclaredParam (α : Type) where
  label : Option Name
  type : α
deriving DecidableEq, Repr

/-- The parameters of a declared function, `(A, ?B, *C, D, k: E, ?l: F, **G)`. -/
structure DeclaredParams (α : Type) where
  required : List (DeclaredParam α)
  optional : List (DeclaredParam α)
  rest : Option (DeclaredParam α)
  trailing : List (DeclaredParam α)
  keywords : List (Name × DeclaredParam α)
  optionalKeywords : List (Name × DeclaredParam α)
  restKeywords : Option (DeclaredParam α)
deriving DecidableEq, Repr

/-- A declared function: its parameters and its result. -/
structure DeclaredFunction (α : Type) where
  params : DeclaredParams α
  result : α
deriving DecidableEq, Repr

/-- One layer of a declared type; `α` stands at the places of the types below. -/
inductive Declared (α : Type) where
  | base (word : Base)
  | placeholder (word : Placeholder)
  | var (name : Name)
  | literal (value : Literal)
  | logic (evidence : Evidence)
  | singleton (name : TypeName)
  | classInstance (name : TypeName) (args : List α)
  | interface (name : TypeName) (args : List α)
  | aliasRef (name : TypeName)
  | compound (connective : Connective) (members : List α)
  | optional (inner : α)
  | tuple (members : List α)
  | record (fields : List (Literal × α))
  | proc (function : DeclaredFunction α)
deriving DecidableEq, Repr

/-- The block that a declared method takes. -/
structure DeclaredBlock (α : Type) where
  function : DeclaredFunction α
  required : Bool
deriving DecidableEq, Repr

/-- A declared overload `[T] (A) { (B) -> C } -> R`. -/
structure DeclaredMethod (α : Type) where
  typeParams : List Name
  function : DeclaredFunction α
  block : Option (DeclaredBlock α)
deriving DecidableEq, Repr

variable {α β : Type} {M : Type → Type} [Monad M]

namespace DeclaredParam

def anonymous (type : α) : DeclaredParam α := ⟨none, type⟩

instance [Inhabited α] : Inhabited (DeclaredParam α) := ⟨anonymous default⟩

def map (f : α → β) (p : DeclaredParam α) : DeclaredParam β := ⟨p.label, f p.type⟩

def mapM (f : α → M β) (p : DeclaredParam α) : M (DeclaredParam β) := do
  return ⟨p.label, ← f p.type⟩

end DeclaredParam

namespace DeclaredParams

def empty : DeclaredParams α := ⟨[], [], none, [], [], [], none⟩

/-- What parameters hold, group by group. -/
def toList (p : DeclaredParams α) : List α :=
  p.required.map DeclaredParam.type ++ p.optional.map DeclaredParam.type ++
    p.rest.toList.map DeclaredParam.type ++ p.trailing.map DeclaredParam.type ++
    p.keywords.map (·.2.type) ++ p.optionalKeywords.map (·.2.type) ++
    p.restKeywords.toList.map DeclaredParam.type

def map (f : α → β) (p : DeclaredParams α) : DeclaredParams β where
  required := p.required.map (DeclaredParam.map f)
  optional := p.optional.map (DeclaredParam.map f)
  rest := p.rest.map (DeclaredParam.map f)
  trailing := p.trailing.map (DeclaredParam.map f)
  keywords := p.keywords.map fun binding => (binding.1, binding.2.map f)
  optionalKeywords := p.optionalKeywords.map fun binding => (binding.1, binding.2.map f)
  restKeywords := p.restKeywords.map (DeclaredParam.map f)

def mapKeywordM (f : α → M β) (binding : Name × DeclaredParam α) :
    M (Name × DeclaredParam β) := do
  return (binding.1, ← binding.2.mapM f)

def mapM (f : α → M β) (p : DeclaredParams α) : M (DeclaredParams β) := do
  let required ← p.required.mapM (DeclaredParam.mapM f)
  let optional ← p.optional.mapM (DeclaredParam.mapM f)
  let rest ← Params.mapRestM (DeclaredParam.mapM f) p.rest
  let trailing ← p.trailing.mapM (DeclaredParam.mapM f)
  let keywords ← p.keywords.mapM (mapKeywordM f)
  let optionalKeywords ← p.optionalKeywords.mapM (mapKeywordM f)
  let restKeywords ← Params.mapRestM (DeclaredParam.mapM f) p.restKeywords
  return ⟨required, optional, rest, trailing, keywords, optionalKeywords, restKeywords⟩

/-- The same parameters without the positionals after the rest. -/
def withoutTrailing (p : DeclaredParams α) : DeclaredParams α := { p with trailing := [] }

/-- The parameter list that is declared: labels and trailing positionals are dropped, and of a
keyword that is written twice the last type stays. -/
def toParams (p : DeclaredParams α) : Params α where
  required := p.required.map DeclaredParam.type
  optional := p.optional.map DeclaredParam.type
  rest := p.rest.map DeclaredParam.type
  keywords := .ofList (p.keywords.map fun binding => (binding.1, binding.2.type))
  optionalKeywords := .ofList (p.optionalKeywords.map fun binding => (binding.1, binding.2.type))
  restKeywords := p.restKeywords.map DeclaredParam.type

/-- Declares a parameter list, no parameter labelled and none trailing. -/
def ofParams (p : Params α) : DeclaredParams α where
  required := p.required.map .anonymous
  optional := p.optional.map .anonymous
  rest := p.rest.map .anonymous
  trailing := []
  keywords := p.keywords.toList.map fun binding => (binding.1, .anonymous binding.2)
  optionalKeywords := p.optionalKeywords.toList.map fun binding => (binding.1, .anonymous binding.2)
  restKeywords := p.restKeywords.map .anonymous

end DeclaredParams

namespace DeclaredFunction

instance [Inhabited α] : Inhabited (DeclaredFunction α) := ⟨⟨.empty, default⟩⟩

/-- What the places of a function hold, in reading order. -/
def toList (fn : DeclaredFunction α) : List α := fn.params.toList ++ [fn.result]

def map (f : α → β) (fn : DeclaredFunction α) : DeclaredFunction β := ⟨fn.params.map f, f fn.result⟩

def mapM (f : α → M β) (fn : DeclaredFunction α) : M (DeclaredFunction β) := do
  let params ← fn.params.mapM f
  let result ← f fn.result
  return ⟨params, result⟩

end DeclaredFunction

instance [Inhabited α] : Inhabited (DeclaredMethod α) := ⟨⟨[], default, none⟩⟩

namespace Declared

/-- What stands at the places of a layer, in reading order. -/
def toList : Declared α → List α
  | classInstance _ args => args
  | interface _ args => args
  | compound _ members => members
  | optional inner => [inner]
  | tuple members => members
  | record fields => fields.map Prod.snd
  | proc fn => fn.toList
  | _ => []

def typeName? : Declared α → Option TypeName
  | singleton name => some name
  | classInstance name _ => some name
  | interface name _ => some name
  | aliasRef name => some name
  | _ => none

/-- Whether a layer has neither a type name nor types below: nothing in it can be renamed. -/
def isLeaf : Declared α → Bool
  | base _ => true
  | placeholder _ => true
  | var _ => true
  | literal _ => true
  | logic _ => true
  | _ => false

def map (f : α → β) : Declared α → Declared β
  | base word => base word
  | placeholder word => placeholder word
  | var name => var name
  | literal value => literal value
  | logic evidence => logic evidence
  | singleton name => singleton name
  | classInstance name args => classInstance name (args.map f)
  | interface name args => interface name (args.map f)
  | aliasRef name => aliasRef name
  | compound connective members => compound connective (members.map f)
  | optional inner => optional (f inner)
  | tuple members => tuple (members.map f)
  | record fields => record (fields.map fun field => (field.1, f field.2))
  | proc fn => proc (fn.map f)

/-- Changes the type name of a layer, then what stands at its places, by actions in reading order. -/
def traverse (rename : TypeName → M TypeName) (f : α → M β) : Declared α → M (Declared β)
  | base word => return base word
  | placeholder word => return placeholder word
  | var name => return var name
  | literal value => return literal value
  | logic evidence => return logic evidence
  | singleton name => return singleton (← rename name)
  | classInstance name args => do
    let name ← rename name
    return classInstance name (← args.mapM f)
  | interface name args => do
    let name ← rename name
    return interface name (← args.mapM f)
  | aliasRef name => return aliasRef (← rename name)
  | compound connective members => return compound connective (← members.mapM f)
  | optional inner => return optional (← f inner)
  | tuple members => return tuple (← members.mapM f)
  | record fields =>
    return record (← fields.mapM fun field => do return (field.1, ← f field.2))
  | proc fn => return proc (← fn.mapM f)

def mapM (f : α → M β) (d : Declared α) : M (Declared β) := d.traverse pure f

/-- The same layer without the positionals after a function's rest. -/
def withoutTrailing : Declared α → Declared α
  | proc fn => proc { fn with params := fn.params.withoutTrailing }
  | d => d

end Declared

end SignatureAlgebra
