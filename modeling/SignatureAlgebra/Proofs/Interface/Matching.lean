/-
**Interfaces that match in a method.**

Two interfaces match in a method if it is there on both sides or on none, with as many overloads, which are
related one by one and in order. Whatever is done to both sides alike keeps this: adding overloads, laying
interfaces over one another and, for a rule that takes related overloads to related ones, joining them.

* `Interface.Matches` — the relation.
* `Interface.find?_extend` — the methods of one interface laid over another.
* `JoinRule.Relates` — joining keeps overloads related.
* `Interface.matches_mergeAll`, `Interface.matches_joinAll` — any number of interfaces.
* `Interface.isSome_find?_mergeAll_iff`, `isSome_of_joinAll`, `find?_joinAll_congr` — which methods are there.
-/
import Mathlib.Data.List.Forall2
import Mathlib.Data.Option.Basic
import SignatureAlgebra.Proofs.Interface.Union

/-! ### Related optional values -/

namespace Option.Rel

variable {α β γ δ : Type} {R : α → β → Prop} {S : γ → δ → Prop} {x y : Option α} {x' y' : Option β}

theorem imp {R' : α → β → Prop} (related : Option.Rel R x x') (weaker : ∀ a b, R a b → R' a b) :
    Option.Rel R' x x' := by
  cases related with
  | some here => exact .some (weaker _ _ here)
  | none => exact .none

theorem or (related : Option.Rel R x x') (related' : Option.Rel R y y') :
    Option.Rel R (x.or y) (x'.or y') := by
  cases related with
  | some here => exact .some here
  | none => exact related'

theorem bind {f : α → Option γ} {g : β → Option δ} (related : Option.Rel R x x')
    (next : ∀ a b, R a b → Option.Rel S (f a) (g b)) : Option.Rel S (x.bind f) (x'.bind g) := by
  cases related with
  | some here => exact next _ _ here
  | none => exact .none

theorem map_eq {f : α → γ} {g : β → γ} (related : Option.Rel R x x')
    (same : ∀ a b, R a b → f a = g b) : x.map f = x'.map g := by
  cases related with
  | some here => exact congrArg Option.some (same _ _ here)
  | none => rfl

/-- What stands for a missing value is related. -/
theorem getD {a : α} {b : β} (related : Option.Rel R x x') (otherwise : R a b) :
    R (x.getD a) (x'.getD b) := by
  cases related with
  | some here => exact here
  | none => exact otherwise

end Option.Rel

namespace SignatureAlgebra

variable {R S : Overload → Overload → Prop}

/-! ### Overloads of a method -/

/-- Joining related overload lists gives related ones, or none on either side. -/
def JoinRule.Relates (rule : JoinRule) (R : Overload → Overload → Prop) : Prop :=
  ∀ ls ls' rs rs', List.Forall₂ R ls ls' → List.Forall₂ R rs rs' →
    Option.Rel (List.Forall₂ R) (rule.joinOverloads ls rs) (rule.joinOverloads ls' rs')

namespace Interface

variable {name : Name} {i i' other other' : Interface} {selfType selfType' : Ty}
  {includesPrivate includesPrivate' : Bool}

/-- **A method that both sides have or neither has**, with as many overloads, related in order. -/
def Matches (R : Overload → Overload → Prop) (name : Name) (i i' : Interface) : Prop :=
  Option.Rel (List.Forall₂ R) (i.find? name) (i'.find? name)

theorem Matches.imp (matching : Matches R name i i') (weaker : ∀ o o', R o o' → S o o') :
    Matches S name i i' := Option.Rel.imp matching fun _ _ pairs => pairs.imp weaker

/-- The numbers of overloads agree. -/
theorem Matches.length_eq (matching : Matches R name i i') :
    (i.find? name).map List.length = (i'.find? name).map List.length :=
  Option.Rel.map_eq matching fun _ _ pairs => pairs.length_eq

theorem matches_empty (R : Overload → Overload → Prop) (name : Name) :
    Matches R name (empty selfType includesPrivate) (empty selfType' includesPrivate) := by
  show Option.Rel _ (NameMap.empty.find? name) (NameMap.empty.find? name)
  rw [NameMap.find?_empty]
  exact .none

theorem find?_put (i : Interface) (method name : Name) (overloads : List Overload) :
    (i.put method overloads).find? name = if name = method then some overloads else i.find? name :=
  NameMap.find?_insert _ _ _ _

theorem Matches.put (matching : Matches R name i i') (method : Name) {overloads overloads' : List Overload}
    (pairs : List.Forall₂ R overloads overloads') :
    Matches R name (i.put method overloads) (i'.put method overloads') := by
  unfold Matches
  rw [find?_put, find?_put]
  split
  · exact .some pairs
  · exact matching

theorem find?_putFirst (i : Interface) (method name : Name) (overloads : List Overload) :
    (i.putFirst method overloads).find? name =
      if name = method then some (overloads ++ (i.find? name).getD []) else i.find? name := by
  rw [putFirst, find?_put]
  split
  · next same => rw [same]
  · rfl

theorem Matches.putFirst (matching : Matches R name i i') (method : Name)
    {overloads overloads' : List Overload} (pairs : List.Forall₂ R overloads overloads') :
    Matches R name (i.putFirst method overloads) (i'.putFirst method overloads') := by
  unfold Matches
  rw [find?_putFirst, find?_putFirst]
  split
  · have before : List.Forall₂ R ((i.find? name).getD []) ((i'.find? name).getD []) :=
      Option.Rel.getD matching .nil
    exact .some (List.rel_append pairs before)
  · exact matching

/-- **One interface laid over another**: its methods, and of the others those below. -/
theorem find?_extend (i other : Interface) (name : Name) :
    (i.extend other).find? name = (other.find? name).or (i.find? name) := by
  have methods : (i.extend other).methods = other.methods.toList.foldl
      (fun m binding => m.insert binding.1 binding.2) i.methods := by
    exact (List.foldl_hom Interface.methods fun _ _ => rfl).symm
  rw [find?, methods, NameMap.find?_foldl_insert,
    NameMap.lookup_reverse other.methods.pairwise_toList, NameMap.lookup_toList]
  rfl

/-- **Of a method that several interfaces have**, that of the last one. -/
theorem find?_mergeAll_cons (i : Interface) (rest : List Interface) (name : Name) :
    (mergeAll selfType includesPrivate (i :: rest)).find? name =
      ((mergeAll selfType includesPrivate rest).find? name).or (i.find? name) := by
  have laid : ∀ (rest : List Interface) (start : Interface), (rest.foldl extend start).find? name =
      ((mergeAll selfType includesPrivate rest).find? name).or (start.find? name) := by
    intro rest
    induction rest with
    | nil => exact fun start => rfl
    | cons next rest ih =>
      intro start
      rw [mergeAll, List.foldl_cons, List.foldl_cons, ih, ih, find?_extend, find?_extend, Option.or_assoc,
        Option.or_assoc]
      rfl
  rw [mergeAll, List.foldl_cons, laid, find?_extend]
  congr 1
  exact Option.or_none

/-- Interfaces laid over one another have the methods of each. -/
theorem isSome_find?_mergeAll_iff {is : List Interface} {name : Name} :
    ((mergeAll selfType includesPrivate is).find? name).isSome ↔ ∃ i ∈ is, (i.find? name).isSome := by
  induction is with
  | nil => exact ⟨nofun, fun ⟨_, impossible, _⟩ => nomatch impossible⟩
  | cons i rest ih => simp [find?_mergeAll_cons, ih, or_comm]

theorem find?_mergeAll_eq_none_iff {is : List Interface} {name : Name} :
    (mergeAll selfType includesPrivate is).find? name = none ↔ ∀ i ∈ is, i.find? name = none := by
  induction is with
  | nil => exact ⟨nofun, fun _ => rfl⟩
  | cons i rest ih => simp [find?_mergeAll_cons, ih, and_comm]

theorem Matches.extend (matching : Matches R name i i') (matching' : Matches R name other other') :
    Matches R name (i.extend other) (i'.extend other') := by
  unfold Matches
  rw [find?_extend, find?_extend]
  exact Option.Rel.or matching' matching

theorem matches_mergeAll {is is' : List Interface} (pairs : List.Forall₂ (Matches R name) is is') :
    Matches R name (mergeAll selfType includesPrivate is) (mergeAll selfType' includesPrivate is') :=
  List.rel_foldl (R := Matches R name) (fun _ _ before _ _ matching => before.extend matching)
    (matches_empty R name) pairs

theorem Matches.join {rule : JoinRule} (relates : rule.Relates R) (matching : Matches R name i i')
    (matching' : Matches R name other other') :
    Matches R name (rule.join selfType includesPrivate i other)
      (rule.join selfType' includesPrivate i' other') := by
  unfold Matches
  rw [JoinRule.find?_join, JoinRule.find?_join]
  exact Option.Rel.bind matching fun _ _ pairs =>
    Option.Rel.bind matching' fun _ _ pairs' => relates _ _ _ _ pairs pairs'

theorem matches_joinAll {rule : JoinRule} (relates : rule.Relates R) {is is' : List Interface}
    (pairs : List.Forall₂ (Matches R name) is is') :
    Matches R name (rule.joinAll selfType includesPrivate is)
      (rule.joinAll selfType' includesPrivate is') := by
  cases pairs with
  | nil => exact matches_empty R name
  | cons first rest =>
    exact List.rel_foldl (R := Matches R name) (fun _ _ before _ _ matching => before.join relates matching)
      first rest

/-- Joined interfaces have no methods but those that each has, by any rule. -/
theorem isSome_of_joinAll {rule : JoinRule} {is : List Interface} {name : Name}
    (present : ((rule.joinAll selfType includesPrivate is).find? name).isSome) :
    ∀ i ∈ is, (i.find? name).isSome := by
  have folded : ∀ (rest : List Interface) (first : Interface),
      ((rest.foldl (rule.join selfType includesPrivate) first).find? name).isSome →
        ∀ i ∈ first :: rest, (i.find? name).isSome := by
    intro rest
    induction rest with
    | nil => exact fun first present => List.forall_mem_singleton.2 present
    | cons second rest ih =>
      intro first present
      obtain ⟨joined, later⟩ := List.forall_mem_cons.1 (ih _ present)
      obtain ⟨os, offered⟩ := Option.isSome_iff_exists.1 joined
      rw [JoinRule.find?_join, Option.bind_eq_some_iff] at offered
      obtain ⟨ls, inFirst, offered⟩ := offered
      obtain ⟨rs, inSecond, _⟩ := Option.bind_eq_some_iff.1 offered
      refine List.forall_mem_cons.2 ⟨?_, List.forall_mem_cons.2 ⟨?_, later⟩⟩
      · exact Option.isSome_of_mem inFirst
      · exact Option.isSome_of_mem inSecond
  cases is with
  | nil => exact nofun
  | cons first rest => exact folded rest first present

/-- A method of joined interfaces is made of that method of each, by any rule. -/
theorem find?_joinAll_congr {rule : JoinRule} {is is' : List Interface} {name : Name}
    (same : List.Forall₂ (fun i i' : Interface => i.find? name = i'.find? name) is is') :
    (rule.joinAll selfType includesPrivate is).find? name =
      (rule.joinAll selfType' includesPrivate' is').find? name := by
  have folded : ∀ {rest rest' : List Interface},
      List.Forall₂ (fun i i' : Interface => i.find? name = i'.find? name) rest rest' →
        ∀ first first' : Interface, first.find? name = first'.find? name →
          (rest.foldl (rule.join selfType includesPrivate) first).find? name =
            (rest'.foldl (rule.join selfType' includesPrivate') first').find? name := by
    intro rest rest' same
    induction same with
    | nil => exact fun _ _ same => same
    | cons here _ ih =>
      intro first first' before
      refine ih _ _ ?_
      rw [JoinRule.find?_join, JoinRule.find?_join, before, here]
  cases same with
  | nil => rfl
  | cons first rest => exact folded rest _ _ first

end Interface

end SignatureAlgebra
