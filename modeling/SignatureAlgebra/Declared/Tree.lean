/-
**Declared types as trees.**

A declared tree is one layer over further trees: what a node of an arena stands for.

* `DeclaredTree.fold` — functions on trees, given by what they do to one layer.
* `DeclaredTree.traverseNames` — changes the type names of a tree by an action, in reading order.
-/
import SignatureAlgebra.Declared.Basic

namespace SignatureAlgebra

/-- A declared type with everything below it. -/
inductive DeclaredTree where
  | node (layer : Declared DeclaredTree)

namespace DeclaredTree

variable {α : Type}

mutual
/-- The function on trees that gives what `step` makes of a layer of its own results. -/
def fold (step : Declared α → α) : DeclaredTree → α
  | ⟨d⟩ => step (foldLayer step d)
termination_by structural t => t

def foldLayer (step : Declared α → α) : Declared DeclaredTree → Declared α
  | .base word => .base word
  | .placeholder word => .placeholder word
  | .var name => .var name
  | .literal value => .literal value
  | .logic evidence => .logic evidence
  | .singleton name => .singleton name
  | .classInstance name args => .classInstance name (foldList step args)
  | .interface name args => .interface name (foldList step args)
  | .aliasRef name => .aliasRef name
  | .compound connective members => .compound connective (foldList step members)
  | .optional inner => .optional (fold step inner)
  | .tuple members => .tuple (foldList step members)
  | .record fields => .record (foldFields step fields)
  | .proc fn => .proc (foldFunction step fn)
termination_by structural d => d

def foldFunction (step : Declared α → α) : DeclaredFunction DeclaredTree → DeclaredFunction α
  | ⟨params, result⟩ => ⟨foldParams step params, fold step result⟩
termination_by structural fn => fn

def foldParams (step : Declared α → α) : DeclaredParams DeclaredTree → DeclaredParams α
  | ⟨required, optional, rest, trailing, keywords, optionalKeywords, restKeywords⟩ =>
    ⟨foldPositionals step required, foldPositionals step optional, foldRest step rest,
      foldPositionals step trailing, foldKeywords step keywords,
      foldKeywords step optionalKeywords, foldRest step restKeywords⟩
termination_by structural ps => ps

def foldParam (step : Declared α → α) : DeclaredParam DeclaredTree → DeclaredParam α
  | ⟨label, t⟩ => ⟨label, fold step t⟩
termination_by structural p => p

def foldList (step : Declared α → α) : List DeclaredTree → List α
  | [] => []
  | t :: rest => fold step t :: foldList step rest
termination_by structural ts => ts

def foldFields (step : Declared α → α) : List (Literal × DeclaredTree) → List (Literal × α)
  | [] => []
  | (key, t) :: rest => (key, fold step t) :: foldFields step rest
termination_by structural fs => fs

def foldPositionals (step : Declared α → α) :
    List (DeclaredParam DeclaredTree) → List (DeclaredParam α)
  | [] => []
  | p :: rest => foldParam step p :: foldPositionals step rest
termination_by structural ps => ps

def foldRest (step : Declared α → α) :
    Option (DeclaredParam DeclaredTree) → Option (DeclaredParam α)
  | none => none
  | some p => some (foldParam step p)
termination_by structural o => o

def foldKeywords (step : Declared α → α) :
    List (Name × DeclaredParam DeclaredTree) → List (Name × DeclaredParam α)
  | [] => []
  | (key, p) :: rest => (key, foldParam step p) :: foldKeywords step rest
termination_by structural ks => ks
end

theorem foldParam_eq (step : Declared α → α) (p : DeclaredParam DeclaredTree) :
    foldParam step p = p.map (fold step) := by
  cases p; rfl

theorem foldList_eq (step : Declared α → α) (ts : List DeclaredTree) :
    foldList step ts = ts.map (fold step) := by
  induction ts with
  | nil => rfl
  | cons t rest ih => simp [foldList, ih]

theorem foldFields_eq (step : Declared α → α) (fields : List (Literal × DeclaredTree)) :
    foldFields step fields = fields.map fun field => (field.1, fold step field.2) := by
  induction fields with
  | nil => rfl
  | cons field rest ih => simp [foldFields, ih]

theorem foldPositionals_eq (step : Declared α → α) (ps : List (DeclaredParam DeclaredTree)) :
    foldPositionals step ps = ps.map (DeclaredParam.map (fold step)) := by
  induction ps with
  | nil => rfl
  | cons p rest ih => simp [foldPositionals, foldParam_eq, ih]

theorem foldRest_eq (step : Declared α → α) (o : Option (DeclaredParam DeclaredTree)) :
    foldRest step o = o.map (DeclaredParam.map (fold step)) := by
  cases o <;> simp [foldRest, foldParam_eq]

theorem foldKeywords_eq (step : Declared α → α) (ks : List (Name × DeclaredParam DeclaredTree)) :
    foldKeywords step ks = ks.map fun binding => (binding.1, binding.2.map (fold step)) := by
  induction ks with
  | nil => rfl
  | cons binding rest ih => simp [foldKeywords, foldParam_eq, ih]

theorem foldParams_eq (step : Declared α → α) (ps : DeclaredParams DeclaredTree) :
    foldParams step ps = ps.map (fold step) := by
  cases ps
  simp [foldParams, DeclaredParams.map, foldPositionals_eq, foldRest_eq, foldKeywords_eq]

theorem foldFunction_eq (step : Declared α → α) (fn : DeclaredFunction DeclaredTree) :
    foldFunction step fn = fn.map (fold step) := by
  cases fn
  simp [foldFunction, DeclaredFunction.map, foldParams_eq]

theorem foldLayer_eq (step : Declared α → α) (d : Declared DeclaredTree) :
    foldLayer step d = d.map (fold step) := by
  cases d <;>
    simp [foldLayer, Declared.map, foldList_eq, foldFields_eq, foldFunction_eq]

/-- The equation that `fold` solves. -/
theorem fold_node (step : Declared α → α) (d : Declared DeclaredTree) :
    fold step ⟨d⟩ = step (d.map (fold step)) := by
  rw [fold, foldLayer_eq]

variable {M : Type → Type} [Monad M]

/-- Changes the type names of a tree by an action, each name before those below it. -/
def traverseNames (rename : TypeName → M TypeName) (t : DeclaredTree) : M DeclaredTree :=
  t.fold fun actions => do return ⟨← actions.traverse rename id⟩

end DeclaredTree

end SignatureAlgebra
