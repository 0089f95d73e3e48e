/-
**What holds of every overload of an interface.**

Interfaces are put together from overloads: some are put under a method, in front of others or in place
of them, one interface is laid over another, and two are joined. A property of method types that holds of
all overloads on the way holds of all overloads of the result, if the rule that joins overloads keeps it.

* `Interface.Everywhere` — the property, for all overloads of all methods.
* `JoinRule.Keeps` — a rule that keeps a property of method types.
* `Interface.Everywhere.put`, `putFirst`, `extend`, `Interface.everywhere_mergeAll` — interfaces put
  together.
* `Interface.everywhere_join`, `Interface.everywhere_joinAll` — joined interfaces.
-/
import SignatureAlgebra.Proofs.Interface.Union

namespace SignatureAlgebra

/-- **Every overload of an interface** has a method type of that kind. -/
def Interface.Everywhere (P : MethodType → Prop) (i : Interface) : Prop :=
  ∀ name overloads, i.find? name = some overloads → ∀ o ∈ overloads, P o.type

/-- A rule that joins overloads of a kind to overloads of that kind. -/
def JoinRule.Keeps (P : MethodType → Prop) (rule : JoinRule) : Prop :=
  ∀ left right joined : Overload, P left.type → P right.type → rule left right = some joined →
    P joined.type

variable {P : MethodType → Prop}

/-- The structural rule keeps what joined method types have from both sides. -/
theorem JoinRule.keeps_structural
    (joins : ∀ left right joined, P left → P right → left.join? right = some joined → P joined) :
    structural.Keeps P := by
  intro left right joined holds holds' found
  by_cases same : left.type = right.type
  · rw [structural, Overload.join?, if_pos same, Option.some.injEq] at found
    exact found ▸ holds
  · rw [structural, Overload.join?, if_neg same, Option.map_eq_some_iff] at found
    obtain ⟨type, isJoin, rfl⟩ := found
    exact joins _ _ _ holds holds' isJoin

theorem JoinRule.Keeps.joinOverloads {rule : JoinRule} (keeps : rule.Keeps P)
    {ls rs js : List Overload} (holds : ∀ l ∈ ls, P l.type) (holds' : ∀ r ∈ rs, P r.type)
    (found : rule.joinOverloads ls rs = some js) : ∀ j ∈ js, P j.type := by
  by_cases agree : ls.map Overload.type = rs.map Overload.type
  · rw [JoinRule.joinOverloads, if_pos agree, Option.some.injEq] at found
    exact found ▸ holds
  · rw [JoinRule.joinOverloads, if_neg agree] at found
    intro j member
    have inPairs : j ∈ rule.joinPairs ls rs := by
      cases joined : rule.joinPairs ls rs with
      | nil => rw [joined] at found; cases found
      | cons first rest =>
        rw [joined, Option.some.injEq] at found
        exact found ▸ member
    rcases mem_foldl_addJoined inPairs with impossible | paired
    · cases impossible
    · obtain ⟨l, isLeft, fromLeft⟩ := List.mem_flatMap.1 paired
      obtain ⟨r, isRight, fromBoth⟩ := List.mem_filterMap.1 fromLeft
      exact keeps l r j (holds l isLeft) (holds' r isRight) fromBoth

namespace Interface

variable {i : Interface} {selfType : Ty} {includesPrivate : Bool}

theorem everywhere_empty (selfType : Ty) (includesPrivate : Bool) :
    (empty selfType includesPrivate).Everywhere P := by
  intro name overloads found
  rw [find?, empty, NameMap.find?_empty] at found
  cases found

theorem Everywhere.imp {Q : MethodType → Prop} (holds : i.Everywhere P) (weaker : ∀ type, P type → Q type) :
    i.Everywhere Q := fun name overloads found o member => weaker _ (holds name overloads found o member)

theorem Everywhere.put (holds : i.Everywhere P) (name : Name) {overloads : List Overload}
    (each : ∀ o ∈ overloads, P o.type) : (i.put name overloads).Everywhere P := by
  intro name' overloads' found
  rw [Interface.put, find?, NameMap.find?_insert] at found
  by_cases same : name' = name
  · rw [if_pos same, Option.some.injEq] at found
    exact found ▸ each
  · rw [if_neg same] at found
    exact holds name' overloads' found

theorem Everywhere.putFirst (holds : i.Everywhere P) (name : Name) {overloads : List Overload}
    (each : ∀ o ∈ overloads, P o.type) : (i.putFirst name overloads).Everywhere P := by
  refine holds.put name fun o member => ?_
  rcases List.mem_append.1 member with new | old
  · exact each o new
  · cases found : i.find? name with
    | none => rw [found] at old; cases old
    | some overloads' =>
      rw [found] at old
      exact holds name overloads' found o old

theorem Everywhere.extend (holds : i.Everywhere P) {other : Interface} (holds' : other.Everywhere P) :
    (i.extend other).Everywhere P := by
  refine List.foldlRecOn other.methods.toList _ holds fun _ before binding member => ?_
  have found : other.find? binding.1 = some binding.2 :=
    (NameMap.lookup_toList other.methods binding.1).symm.trans
      (NameMap.lookup_eq_some_of_mem other.methods.pairwise_toList member)
  exact before.put binding.1 (holds' binding.1 binding.2 found)

theorem everywhere_mergeAll {interfaces : List Interface} (holds : ∀ i ∈ interfaces, i.Everywhere P) :
    (mergeAll selfType includesPrivate interfaces).Everywhere P :=
  List.foldlRecOn interfaces Interface.extend (everywhere_empty selfType includesPrivate)
    fun _ before i member => before.extend (holds i member)

theorem everywhere_join {rule : JoinRule} (keeps : rule.Keeps P) {left right : Interface}
    (holds : left.Everywhere P) (holds' : right.Everywhere P) :
    (rule.join selfType includesPrivate left right).Everywhere P := by
  intro name js offered
  rw [JoinRule.find?_join, Option.bind_eq_some_iff] at offered
  obtain ⟨ls, inLeft, offered⟩ := offered
  obtain ⟨rs, inRight, joined⟩ := Option.bind_eq_some_iff.1 offered
  exact keeps.joinOverloads (holds name ls inLeft) (holds' name rs inRight) joined

theorem everywhere_joinAll {rule : JoinRule} (keeps : rule.Keeps P) {interfaces : List Interface}
    (holds : ∀ i ∈ interfaces, i.Everywhere P) :
    (rule.joinAll selfType includesPrivate interfaces).Everywhere P := by
  cases interfaces with
  | nil => exact everywhere_empty selfType includesPrivate
  | cons first rest =>
    exact List.foldlRecOn rest _ (holds first List.mem_cons_self) fun _ before i member =>
      everywhere_join keeps before (holds i (List.mem_cons_of_mem _ member))

end Interface

end SignatureAlgebra
