/-
**Types as trees.**

A type is one layer, a `Shape`, whose places hold further types. Unions and intersections are one
shape with a `Connective`, so what is said of one holds of the other with the roles of `top` and
`bottom` exchanged; class instances, interfaces and aliases are one shape with a `Head`.

* `Shape.toList`, `Shape.map`, `Shape.mapM` — the places of a layer in reading order: arguments and
  members from left to right, parameters before the result.
* `Ty.recurse`, `Ty.fold` — functions on types, given by what they do to one layer.
* `Ty.induction` — what holds of a type when it holds of its children holds of every type.
* `Ty.subterms` — every type that occurs in a type, each before its children.
-/
import SignatureAlgebra.TypeName
import SignatureAlgebra.Literal
import SignatureAlgebra.Params

namespace SignatureAlgebra

/-- Types that are one word: untyped, the largest and the smallest type, truth values, no result,
and `nil`. -/
inductive Base where
  | any
  | top
  | bottom
  | boolean
  | void
  | nil
deriving DecidableEq, Repr

/-- Words whose meaning depends on the receiver: itself, an instance of its class, its class. -/
inductive Placeholder where
  | selfType
  | instanceType
  | classType
deriving DecidableEq, Repr

/-- What a name with arguments stands for. -/
inductive Head where
  | ofClass
  | ofInterface
  | ofAlias
deriving DecidableEq, Repr

/-- How the members of a compound type are connected. -/
inductive Connective where
  | union
  | intersection
deriving DecidableEq, Repr

/-- What a truth value returned by a predicate says about its receiver or its argument. -/
inductive Evidence where
  | receiverIsArg
  | receiverIsNil
  | not
  | argIsReceiver
deriving DecidableEq, Repr

/-- One layer of a type; `α` stands at the places of the types below. -/
inductive Shape (α : Type) where
  | base (word : Base)
  | placeholder (word : Placeholder)
  | var (name : Name)
  | literal (value : Literal)
  | logic (evidence : Evidence)
  | singleton (name : TypeName)
  | applied (head : Head) (name : TypeName) (args : List α)
  | compound (connective : Connective) (members : List α)
  | tuple (members : List α)
  | record (fields : List (Literal × α))
  | proc (params : Params α) (result : α)
deriving DecidableEq, Repr

namespace Shape

variable {α β γ : Type}

/-- What stands at the places of a layer, in reading order. -/
def toList : Shape α → List α
  | applied _ _ args => args
  | compound _ members => members
  | tuple members => members
  | record fields => fields.map Prod.snd
  | proc params result => params.toList ++ [result]
  | _ => []

def map (f : α → β) : Shape α → Shape β
  | base word => base word
  | placeholder word => placeholder word
  | var name => var name
  | literal value => literal value
  | logic evidence => logic evidence
  | singleton name => singleton name
  | applied head name args => applied head name (args.map f)
  | compound connective members => compound connective (members.map f)
  | tuple members => tuple (members.map f)
  | record fields => record (fields.map fun field => (field.1, f field.2))
  | proc params result => proc (params.map f) (f result)

/-- Changes what stands at the places of a layer by an action, in reading order. -/
def mapM {M : Type → Type} [Monad M] (f : α → M β) : Shape α → M (Shape β)
  | base word => return base word
  | placeholder word => return placeholder word
  | var name => return var name
  | literal value => return literal value
  | logic evidence => return logic evidence
  | singleton name => return singleton name
  | applied head name args => return applied head name (← args.mapM f)
  | compound connective members => return compound connective (← members.mapM f)
  | tuple members => return tuple (← members.mapM f)
  | record fields =>
    return record (← fields.mapM fun field => do return (field.1, ← f field.2))
  | proc params result => do
    let params ← params.mapM f
    let result ← f result
    return proc params result

@[simp] theorem toList_map (f : α → β) (s : Shape α) : (s.map f).toList = s.toList.map f := by
  cases s <;> simp [map, toList, Function.comp_def]

@[simp] theorem map_id (s : Shape α) : s.map id = s := by cases s <;> simp [map]

theorem map_map (f : α → β) (g : β → γ) (s : Shape α) : (s.map f).map g = s.map (g ∘ f) := by
  cases s <;> simp [map, Params.map_map]

theorem map_congr {f g : α → β} {s : Shape α} (same : ∀ a ∈ s.toList, f a = g a) :
    s.map f = s.map g := by
  cases s with
  | proc params result =>
    simp only [toList, List.mem_append, List.mem_singleton] at same
    simp only [map, proc.injEq]
    exact ⟨Params.map_congr fun a h => same a (Or.inl h), same result (Or.inr rfl)⟩
  | record fields =>
    simp only [map, record.injEq, List.map_inj_left, Prod.mk.injEq, true_and]
    exact fun field member => same field.2 (List.mem_map.2 ⟨field, member, rfl⟩)
  | _ => simp_all [map, toList]

end Shape

/-- A type: one layer over the types below it. -/
inductive Ty where
  | node (shape : Shape Ty)

namespace Ty

variable {α : Type}

def shape : Ty → Shape Ty
  | ⟨s⟩ => s

def children (t : Ty) : List Ty := t.shape.toList

/-- The type without a claim: anything goes. -/
@[match_pattern] abbrev any : Ty := ⟨.base .any⟩
/-- The type of every value. -/
@[match_pattern] abbrev top : Ty := ⟨.base .top⟩
/-- The type of no value. -/
@[match_pattern] abbrev bottom : Ty := ⟨.base .bottom⟩
/-- The type of the truth values. -/
@[match_pattern] abbrev boolean : Ty := ⟨.base .boolean⟩
/-- The type of a result that is not to be used. -/
@[match_pattern] abbrev void : Ty := ⟨.base .void⟩
/-- The type of `nil`. -/
@[match_pattern] abbrev nil : Ty := ⟨.base .nil⟩
/-- The type of the receiver. -/
@[match_pattern] abbrev selfType : Ty := ⟨.placeholder .selfType⟩
/-- The type of the instances of the receiver's class. -/
@[match_pattern] abbrev instanceType : Ty := ⟨.placeholder .instanceType⟩
/-- The type of the receiver's class. -/
@[match_pattern] abbrev classType : Ty := ⟨.placeholder .classType⟩
/-- A type variable. -/
@[match_pattern] abbrev var (name : Name) : Ty := ⟨.var name⟩
/-- The type of one literal value. -/
@[match_pattern] abbrev literal (value : Literal) : Ty := ⟨.literal value⟩
/-- A truth value that carries evidence. -/
@[match_pattern] abbrev logic (evidence : Evidence) : Ty := ⟨.logic evidence⟩
/-- The class or module of that name, as a value. -/
@[match_pattern] abbrev singletonOf (name : TypeName) : Ty := ⟨.singleton name⟩
/-- An instance of a class. -/
@[match_pattern] abbrev instanceOf (name : TypeName) (args : List Ty) : Ty :=
  ⟨.applied .ofClass name args⟩
/-- A value that has the members of an interface. -/
@[match_pattern] abbrev interfaceOf (name : TypeName) (args : List Ty) : Ty :=
  ⟨.applied .ofInterface name args⟩
/-- A reference to a declared alias. -/
@[match_pattern] abbrev aliasOf (name : TypeName) (args : List Ty) : Ty :=
  ⟨.applied .ofAlias name args⟩
/-- An array of one element of each member. -/
@[match_pattern] abbrev tuple (members : List Ty) : Ty := ⟨.tuple members⟩
/-- A hash with one value for each key. -/
@[match_pattern] abbrev record (fields : List (Literal × Ty)) : Ty := ⟨.record fields⟩
/-- Something that can be called. -/
@[match_pattern] abbrev proc (params : Params Ty) (result : Ty) : Ty := ⟨.proc params result⟩

instance : Inhabited Ty := ⟨any⟩

/-- Whether a type is a reference to an alias. -/
def isAlias : Ty → Bool
  | aliasOf _ _ => true
  | _ => false

/-- Whether a type is a union, written as such. -/
def isUnion : Ty → Bool
  | ⟨.compound .union _⟩ => true
  | _ => false

/-- The two types of one value that a condition takes for false: `nil` and the literal `false`. -/
def isFalsyConstant : Ty → Bool
  | nil => true
  | literal (.boolean false) => true
  | _ => false

/-! ### Recursion on types -/

mutual
/-- The function on types that gives, for each type, what `step` makes of the type and of its layer
with the function applied at every place. -/
def recurse (step : Ty → Shape α → α) : Ty → α
  | ⟨s⟩ => step ⟨s⟩ (recurseShape step s)
termination_by structural t => t

def recurseShape (step : Ty → Shape α → α) : Shape Ty → Shape α
  | .base word => .base word
  | .placeholder word => .placeholder word
  | .var name => .var name
  | .literal value => .literal value
  | .logic evidence => .logic evidence
  | .singleton name => .singleton name
  | .applied head name args => .applied head name (recurseList step args)
  | .compound connective members => .compound connective (recurseList step members)
  | .tuple members => .tuple (recurseList step members)
  | .record fields => .record (recurseFields step fields)
  | .proc params result => .proc (recurseParams step params) (recurse step result)
termination_by structural s => s

def recurseParams (step : Ty → Shape α → α) : Params Ty → Params α
  | ⟨required, optional, rest, ⟨keywords⟩, ⟨optionalKeywords⟩, restKeywords⟩ =>
    ⟨recurseList step required, recurseList step optional, recurseOption step rest,
      ⟨recurseGaps step keywords⟩, ⟨recurseGaps step optionalKeywords⟩,
      recurseOption step restKeywords⟩
termination_by structural p => p

def recurseList (step : Ty → Shape α → α) : List Ty → List α
  | [] => []
  | t :: rest => recurse step t :: recurseList step rest
termination_by structural ts => ts

def recurseOption (step : Ty → Shape α → α) : Option Ty → Option α
  | none => none
  | some t => some (recurse step t)
termination_by structural o => o

def recurseFields (step : Ty → Shape α → α) : List (Literal × Ty) → List (Literal × α)
  | [] => []
  | (key, t) :: rest => (key, recurse step t) :: recurseFields step rest
termination_by structural fs => fs

def recurseGaps (step : Ty → Shape α → α) : List (Nat × Ty) → List (Nat × α)
  | [] => []
  | (gap, t) :: rest => (gap, recurse step t) :: recurseGaps step rest
termination_by structural gs => gs
end

/-- The function on types that gives what `step` makes of a layer of its own results. -/
def fold (step : Shape α → α) (t : Ty) : α := t.recurse fun _ results => step results

theorem recurseList_eq (step : Ty → Shape α → α) (ts : List Ty) :
    recurseList step ts = ts.map (recurse step) := by
  induction ts with
  | nil => rfl
  | cons t rest ih => simp [recurseList, ih]

theorem recurseOption_eq (step : Ty → Shape α → α) (o : Option Ty) :
    recurseOption step o = o.map (recurse step) := by
  cases o <;> rfl

theorem recurseFields_eq (step : Ty → Shape α → α) (fields : List (Literal × Ty)) :
    recurseFields step fields = fields.map fun field => (field.1, recurse step field.2) := by
  induction fields with
  | nil => rfl
  | cons field rest ih => simp [recurseFields, ih]

theorem recurseGaps_eq (step : Ty → Shape α → α) (gaps : List (Nat × Ty)) :
    recurseGaps step gaps = gaps.map fun entry => (entry.1, recurse step entry.2) := by
  induction gaps with
  | nil => rfl
  | cons entry rest ih => simp [recurseGaps, ih]

theorem recurseParams_eq (step : Ty → Shape α → α) (params : Params Ty) :
    recurseParams step params = params.map (recurse step) := by
  obtain ⟨required, optional, rest, ⟨keywords⟩, ⟨optionalKeywords⟩, restKeywords⟩ := params
  simp [recurseParams, Params.map, NameMap.map, recurseList_eq, recurseOption_eq, recurseGaps_eq]

theorem recurseShape_eq (step : Ty → Shape α → α) (s : Shape Ty) :
    recurseShape step s = s.map (recurse step) := by
  cases s <;>
    simp [recurseShape, Shape.map, recurseList_eq, recurseFields_eq, recurseParams_eq]

/-- The equation that `recurse` solves. -/
theorem recurse_node (step : Ty → Shape α → α) (s : Shape Ty) :
    recurse step ⟨s⟩ = step ⟨s⟩ (s.map (recurse step)) := by
  rw [recurse, recurseShape_eq]

/-- The equation that `fold` solves. -/
theorem fold_node (step : Shape α → α) (s : Shape Ty) : fold step ⟨s⟩ = step (s.map (fold step)) :=
  recurse_node _ s

/-! ### Induction, size and occurrence -/

/-- How many nodes a type has. -/
def size (t : Ty) : Nat := t.fold fun results => results.toList.foldr (· + ·) 0 + 1

theorem size_node (s : Shape Ty) : size ⟨s⟩ = (s.toList.map size).foldr (· + ·) 0 + 1 := by
  rw [size, fold_node, Shape.toList_map]; rfl

/-- A number is at most what a list it is in adds up to. -/
theorem le_foldr_of_mem {n : Nat} {ns : List Nat} (member : n ∈ ns) : n ≤ ns.foldr (· + ·) 0 := by
  induction ns with
  | nil => cases member
  | cons first rest ih =>
    rw [List.foldr_cons]
    rcases List.mem_cons.1 member with rfl | inRest
    · exact Nat.le_add_right n _
    · exact Nat.le_trans (ih inRest) (Nat.le_add_left _ first)

theorem size_lt_of_mem_children {t u : Ty} (member : u ∈ t.children) : u.size < t.size := by
  obtain ⟨s⟩ := t
  rw [size_node]
  exact Nat.lt_succ_of_le (le_foldr_of_mem (List.mem_map_of_mem member))

/-- What holds of a type whenever it holds of its children holds of every type. -/
theorem induction {P : Ty → Prop} (step : ∀ t : Ty, (∀ u ∈ t.children, P u) → P t) (t : Ty) : P t :=
  step t fun u _ => induction step u
termination_by t.size
decreasing_by exact size_lt_of_mem_children (by assumption)

/-- Every type that occurs in a type: the type itself, then those below it in reading order. -/
def subterms (t : Ty) : List Ty := t.recurse fun u results => u :: results.toList.flatten

theorem subterms_eq (t : Ty) : t.subterms = t :: t.children.flatMap subterms := by
  obtain ⟨s⟩ := t
  rw [subterms, recurse_node, Shape.toList_map]
  rfl

theorem self_mem_subterms (t : Ty) : t ∈ t.subterms := by simp [subterms_eq t]

/-- The type variables that occur in a type, in reading order, each as often as it occurs. -/
def freeVars (t : Ty) : List Name :=
  t.subterms.filterMap fun
    | var name => some name
    | _ => none

/-- What a reader of a type meets in it. -/
inductive Mention where
  | var (name : Name)
  | named (name : TypeName)
deriving DecidableEq, Repr

/-- The variables and type names that occur in a type, in reading order. -/
def mentions (t : Ty) : List Mention :=
  t.subterms.filterMap fun
    | var name => some (.var name)
    | singletonOf name => some (.named name)
    | ⟨.applied _ name _⟩ => some (.named name)
    | _ => none

end Ty

end SignatureAlgebra
