/-
**Parameter lists: positions and keywords.**

Positional parameters are known by their place alone and keyword parameters by their name. The six
groups are always met in one order: required, optional and rest positionals, then required, optional
and rest keywords.

* `Params.toList` — the types in that order.
* `Params.map`, `Params.mapM` — change every type, in that order, and keep the shape.
* `Params.shape` — the positions and keywords without the types; `Params.zip?` pairs the types of two
  lists of one shape, and `Params.zipWith?` combines them.
-/
import SignatureAlgebra.NameMap

namespace SignatureAlgebra

/-- The parameters of something callable, each holding an `α`. -/
structure Params (α : Type) where
  required : List α
  optional : List α
  rest : Option α
  keywords : NameMap α
  optionalKeywords : NameMap α
  restKeywords : Option α
deriving DecidableEq, Repr

namespace Params

variable {α β γ : Type}

def empty : Params α := ⟨[], [], none, .empty, .empty, none⟩

instance : Inhabited (Params α) := ⟨empty⟩

/-- Required positional parameters and nothing else. -/
def positional (required : List α) : Params α := { (empty : Params α) with required := required }

/-- Whether the list accepts no arguments at all. -/
def isEmpty (p : Params α) : Bool :=
  p.required.isEmpty && p.optional.isEmpty && p.rest.isNone && p.keywords.isEmpty &&
    p.optionalKeywords.isEmpty && p.restKeywords.isNone

/-- What the parameters hold, group by group. -/
def toList (p : Params α) : List α :=
  p.required ++ p.optional ++ p.rest.toList ++ p.keywords.values ++ p.optionalKeywords.values ++
    p.restKeywords.toList

def map (f : α → β) (p : Params α) : Params β where
  required := p.required.map f
  optional := p.optional.map f
  rest := p.rest.map f
  keywords := p.keywords.map f
  optionalKeywords := p.optionalKeywords.map f
  restKeywords := p.restKeywords.map f

def mapRestM {M : Type → Type} [Monad M] (f : α → M β) : Option α → M (Option β)
  | none => return none
  | some a => return some (← f a)

/-- Changes what every parameter holds by an action, group by group. -/
def mapM {M : Type → Type} [Monad M] (f : α → M β) (p : Params α) : M (Params β) := do
  let required ← p.required.mapM f
  let optional ← p.optional.mapM f
  let rest ← mapRestM f p.rest
  let keywords ← p.keywords.mapM f
  let optionalKeywords ← p.optionalKeywords.mapM f
  let restKeywords ← mapRestM f p.restKeywords
  return ⟨required, optional, rest, keywords, optionalKeywords, restKeywords⟩

/-- The positions and keywords alone. -/
def shape (p : Params α) : Params Unit := p.map fun _ => ()

/-- Whether two lists have the same positions and the same keywords. -/
def SameShape (p : Params α) (q : Params β) : Prop := p.shape = q.shape

instance (p : Params α) (q : Params β) : Decidable (SameShape p q) :=
  inferInstanceAs (Decidable (p.shape = q.shape))

def zipList? : List α → List β → Option (List (α × β))
  | [], [] => some []
  | a :: as, b :: bs => (zipList? as bs).map ((a, b) :: ·)
  | _, _ => none

def zipRest? : Option α → Option β → Option (Option (α × β))
  | none, none => some none
  | some a, some b => some (some (a, b))
  | _, _ => none

/-- Pairs what two lists hold at the same positions and keywords; lists of different shapes have no
pairing. -/
def zip? (p : Params α) (q : Params β) : Option (Params (α × β)) := do
  let required ← zipList? p.required q.required
  let optional ← zipList? p.optional q.optional
  let rest ← zipRest? p.rest q.rest
  let keywords ← p.keywords.zip? q.keywords
  let optionalKeywords ← p.optionalKeywords.zip? q.optionalKeywords
  let restKeywords ← zipRest? p.restKeywords q.restKeywords
  return ⟨required, optional, rest, keywords, optionalKeywords, restKeywords⟩

/-- Combines two lists of one shape position by position. -/
def zipWith? (f : α → β → γ) (p : Params α) (q : Params β) : Option (Params γ) :=
  (p.zip? q).map (·.map fun pair => f pair.1 pair.2)

/-- Combines two lists of one shape position by position, by an action. -/
def zipWithM? {M : Type → Type} [Monad M] (f : α → β → M γ) (p : Params α) (q : Params β) :
    M (Option (Params γ)) :=
  match p.zip? q with
  | none => return none
  | some pairs => return some (← pairs.mapM fun pair => f pair.1 pair.2)

/-! ### Laws of the operations -/

@[simp] theorem toList_map (f : α → β) (p : Params α) : (p.map f).toList = p.toList.map f := by
  cases p with
  | mk required optional rest keywords optionalKeywords restKeywords =>
    cases rest <;> cases restKeywords <;> simp [map, toList]

@[simp] theorem map_id (p : Params α) : p.map id = p := by simp [map]

theorem map_map (f : α → β) (g : β → γ) (p : Params α) : (p.map f).map g = p.map (g ∘ f) := by
  simp [map, NameMap.map_map]

theorem map_congr {f g : α → β} {p : Params α} (same : ∀ a ∈ p.toList, f a = g a) :
    p.map f = p.map g := by
  have inRest : ∀ {o : Option α}, (∀ a ∈ o.toList, f a = g a) → o.map f = o.map g := by
    intro o h; cases o <;> simp_all
  simp only [toList, List.mem_append] at same
  simp only [map, mk.injEq]
  refine ⟨List.map_congr_left fun a h => same a ?_, List.map_congr_left fun a h => same a ?_,
    inRest fun a h => same a ?_, NameMap.map_congr fun a h => same a ?_,
    NameMap.map_congr fun a h => same a ?_, inRest fun a h => same a ?_⟩ <;> simp [h]

@[simp] theorem shape_map (f : α → β) (p : Params α) : (p.map f).shape = p.shape := by
  simp only [shape, map_map, Function.comp_def]

end Params

end SignatureAlgebra
