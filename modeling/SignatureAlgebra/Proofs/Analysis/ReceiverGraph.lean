/-
**Where the interface of a type comes from.**

The interface of an alias is that of its body, that of a union or intersection comes from the interfaces
of its members, and that of `self` is the one of the receiver. These steps make a graph on types. An alias
that lies on a circle of the graph has no interface, and neither has a type from which a circle can be
reached.

* `Environment.Step` — the graph, for a receiver; `Environment.Reaches` — any number of its steps.
* `Environment.Settled` — no infinite way starts at a type; `Settled.not_circular` — so no circle can be
  reached.
* `Environment.settled_of_leaves`, `exists_leaf_of_reaches` — unions and their leaves.
* `Environment.settled_of_self`, `reaches_of_self` — the receiver `self` against any other.
-/
import Mathlib.Logic.Relation
import SignatureAlgebra.Proofs.Analysis.Transparency
import SignatureAlgebra.Proofs.Ty.Rebuilding

namespace SignatureAlgebra

/-- The type is an alias, with or without arguments. -/
def Ty.IsAlias (t : Ty) : Prop := ∃ name args, t = .aliasOf name args

theorem Ty.IsAlias.not_isCompound {t : Ty} {c : Connective} (isAlias : t.IsAlias) :
    t.isCompound c = false := by
  obtain ⟨name, args, rfl⟩ := isAlias
  rfl

namespace Environment

/-! ### The graph -/

/-- **The steps from a type to the types that its interface comes from**, with `selfType` as the
receiver. The arguments of an alias do not matter. -/
inductive Step (env : Environment) (selfType : Ty) : Ty → Ty → Prop where
  | ofAlias {name : TypeName} {args : List Ty} {body : Ty} (declared : env.aliasType name = .ok body) :
    Step env selfType (.aliasOf name args) body
  | ofMember {c : Connective} {members : List Ty} {t : Ty} (isMember : t ∈ members) :
    Step env selfType ⟨.compound c members⟩ t
  | ofSelf : Step env selfType .selfType selfType

/-- Any number of steps. -/
abbrev Reaches (env : Environment) (selfType : Ty) : Ty → Ty → Prop :=
  Relation.ReflTransGen (env.Step selfType)

/-- A type that is reached from itself by one step or more. -/
def Circular (env : Environment) (selfType t : Ty) : Prop := Relation.TransGen (env.Step selfType) t t

/-- **No infinite way starts at the type.** -/
def Settled (env : Environment) (selfType t : Ty) : Prop := Acc (flip (env.Step selfType)) t

variable {env : Environment} {selfType t u leaf : Ty} {c : Connective}

theorem Settled.reaches (settled : env.Settled selfType t) (reached : env.Reaches selfType t u) :
    env.Settled selfType u := by
  induction reached with
  | refl => exact settled
  | tail _ step ih => exact ih.inv step

theorem Settled.not_circular_self (settled : env.Settled selfType t) : ¬ env.Circular selfType t := by
  induction settled with
  | intro t _ ih =>
    intro circle
    obtain ⟨u, step, back⟩ := Relation.TransGen.head'_iff.1 circle
    exact ih u step (Relation.TransGen.tail' back step)

/-- **From a settled type no circle can be reached.** -/
theorem Settled.not_circular (settled : env.Settled selfType t) (reached : env.Reaches selfType t u) :
    ¬ env.Circular selfType u := (settled.reaches reached).not_circular_self

/-- A type without steps is settled. -/
theorem settled_of_no_step (none : ∀ u, ¬ env.Step selfType t u) : env.Settled selfType t :=
  Acc.intro t fun u step => absurd step (none u)

theorem settled_compound {members : List Ty} (each : ∀ u ∈ members, env.Settled selfType u) :
    env.Settled selfType ⟨.compound c members⟩ := by
  refine Acc.intro _ fun u step => ?_
  cases step with
  | ofMember isMember => exact each u isMember

theorem settled_alias {name : TypeName} {args : List Ty} {body : Ty}
    (declared : env.aliasType name = .ok body) (settled : env.Settled selfType body) :
    env.Settled selfType (.aliasOf name args) := by
  refine Acc.intro _ fun u step => ?_
  cases step with
  | ofAlias declared' =>
    obtain rfl := Except.ok.inj (declared.symm.trans declared')
    exact settled

/-! ### Unions and their leaves -/

theorem reaches_leaf (t : Ty) : leaf ∈ t.leaves c → env.Reaches selfType t leaf := by
  induction t using Ty.induction with
  | step t ih =>
    intro isLeaf
    by_cases compound : t.isCompound c = true
    · obtain ⟨members, rfl⟩ := Ty.eq_compound_of_isCompound compound
      rw [Ty.leaves_compound] at isLeaf
      obtain ⟨inner, isMember, inInner⟩ := List.mem_flatMap.1 isLeaf
      exact Relation.ReflTransGen.head (Step.ofMember isMember) (ih inner isMember inInner)
    · rw [Ty.leaves_of_not_isCompound (by simpa using compound), List.mem_singleton] at isLeaf
      rw [isLeaf]

/-- What a type reaches, apart from compound types, its leaves reach. -/
theorem exists_leaf_of_reaches (t : Ty) (plain : u.isCompound c = false) :
    env.Reaches selfType t u → ∃ leaf ∈ t.leaves c, env.Reaches selfType leaf u := by
  induction t using Ty.induction with
  | step t ih =>
    intro reached
    by_cases compound : t.isCompound c = true
    · obtain ⟨members, rfl⟩ := Ty.eq_compound_of_isCompound compound
      rcases Relation.ReflTransGen.cases_head reached with rfl | ⟨v, step, further⟩
      · rw [compound] at plain
        cases plain
      · cases step with
        | ofMember isMember =>
          obtain ⟨leaf, inMember, reaches⟩ := ih v isMember further
          rw [Ty.leaves_compound]
          exact ⟨leaf, List.mem_flatMap.2 ⟨v, isMember, inMember⟩, reaches⟩
    · rw [Ty.leaves_of_not_isCompound (by simpa using compound)]
      exact ⟨t, List.mem_singleton.2 rfl, reached⟩

/-- A type whose leaves are settled is settled. -/
theorem settled_of_leaves (t : Ty) :
    (∀ leaf ∈ t.leaves c, env.Settled selfType leaf) → env.Settled selfType t := by
  induction t using Ty.induction with
  | step t ih =>
    intro each
    by_cases compound : t.isCompound c = true
    · obtain ⟨members, rfl⟩ := Ty.eq_compound_of_isCompound compound
      rw [Ty.leaves_compound] at each
      refine settled_compound fun u isMember => ih u isMember fun leaf isLeaf => ?_
      exact each leaf (List.mem_flatMap.2 ⟨u, isMember, isLeaf⟩)
    · rw [Ty.leaves_of_not_isCompound (by simpa using compound)] at each
      exact each t (List.mem_singleton.2 rfl)

/-! ### The receiver `self` -/

/-- A way that is there for `self` as the receiver is there for any receiver. -/
theorem reaches_of_self (reached : env.Reaches .selfType t u) : env.Reaches selfType t u := by
  induction reached with
  | refl => exact Relation.ReflTransGen.refl
  | tail _ step ih =>
    cases step with
    | ofAlias declared => exact ih.tail (Step.ofAlias declared)
    | ofMember isMember => exact ih.tail (Step.ofMember isMember)
    -- With `self` as the receiver, the step from `self` leads to `self`.
    | ofSelf => exact ih

/-- An alias on a circle for `self` as the receiver is on one for any receiver. -/
theorem circular_of_self (isAlias : t.IsAlias) (circle : env.Circular .selfType t) :
    env.Circular selfType t := by
  obtain ⟨u, step, back⟩ := Relation.TransGen.head'_iff.1 circle
  obtain ⟨name, args, rfl⟩ := isAlias
  cases step with
  | ofAlias declared => exact Relation.TransGen.head' (Step.ofAlias declared) (reaches_of_self back)

/-- What is settled for `self` as the receiver does not lead to `self`, so it is settled for any
receiver. -/
theorem settled_of_self (settled : env.Settled .selfType t) : env.Settled selfType t := by
  induction settled with
  | intro t below ih =>
    refine Acc.intro t fun u step => ?_
    cases step with
    | ofAlias declared => exact ih _ (Step.ofAlias declared)
    | ofMember isMember => exact ih _ (Step.ofMember isMember)
    | ofSelf =>
      have circle : env.Circular .selfType .selfType := Relation.TransGen.single Step.ofSelf
      have settled : env.Settled .selfType .selfType := Acc.intro _ below
      exact absurd circle settled.not_circular_self

end Environment

end SignatureAlgebra
