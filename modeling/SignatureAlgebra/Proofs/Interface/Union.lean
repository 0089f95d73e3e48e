/-
**What a union offers, each of its members offers.**

Joining the interfaces of the members of a union is sound: an overload that is offered on the union
demands at least what an overload of each member demands, and promises no more than that overload
promises. The members are joined one after the other, so a witness among the overloads of an earlier
member has to survive all later joins; `MethodType.Inherits` is what carries it.

* `MethodType.Restricts` — demands at least what another method type demands, and promises no more.
* `MethodType.restricts_right_of_join?`, `MethodType.inherits_of_join?` — a join restricts its right
  side, and inherits from its left side.
* `JoinRule.find?_join_spec` — what one join of two interfaces keeps.
* `JoinRule.joinAll_restricts` — the statement for any number of members.
-/
import Mathlib.Data.List.Forall2
import SignatureAlgebra.Interface
import SignatureAlgebra.Proofs.NameMap.Lookup
import SignatureAlgebra.Proofs.Params.Positions
import SignatureAlgebra.Proofs.Ty.Normal

namespace SignatureAlgebra

/-! ### Method types in normal form -/

/-- Every type of a method type is in normal form. -/
structure MethodType.IsNormal (type : MethodType) : Prop where
  params : ∀ t ∈ type.params.toList, t.IsNormal
  blockParams : ∀ block ∈ type.block, ∀ t ∈ block.params.toList, t.IsNormal
  blockResult : ∀ block ∈ type.block, block.result.IsNormal
  result : type.result.IsNormal

/-- Every overload of an interface is in normal form. -/
def Interface.IsNormal (i : Interface) : Prop :=
  ∀ name overloads, i.find? name = some overloads → ∀ o ∈ overloads, o.type.IsNormal

/-- The interface of a single method. -/
def Interface.ofMethod (name : Name) (overloads : List Overload) : Interface :=
  (empty .selfType false).put name overloads

theorem Interface.isNormal_ofMethod {name : Name} {overloads : List Overload}
    (normal : ∀ o ∈ overloads, o.type.IsNormal) : (ofMethod name overloads).IsNormal := by
  intro other os found
  rw [ofMethod, find?, put, NameMap.find?_insert] at found
  by_cases same : other = name
  · rw [if_pos same, Option.some.injEq] at found
    exact found ▸ normal
  · rw [if_neg same, empty, NameMap.find?_empty] at found
    cases found

/-! ### Restriction -/

/-- A method type with the type parameters, the block and the parameter shape of another one, that
demands at least as much at every parameter and promises no more. -/
structure MethodType.Restricts (mine theirs : MethodType) : Prop where
  typeParams : mine.typeParams = theirs.typeParams
  block : mine.block = theirs.block
  shape : mine.params.SameShape theirs.params
  demands : List.Forall₂ (fun t u => Ty.intersection [t, u] = t) mine.params.toList
    theirs.params.toList
  promises : Ty.union [mine.result, theirs.result] = mine.result

namespace MethodType

/-- Whatever the second method type restricts, the first restricts as well. -/
def Inherits (mine theirs : MethodType) : Prop := ∀ other, theirs.Restricts other → mine.Restricts other

theorem restricts_self {type : MethodType} (normal : type.IsNormal) : type.Restricts type where
  typeParams := rfl
  block := rfl
  shape := rfl
  demands := List.forall₂_same.2 fun t member =>
    Ty.covers_self ((normal.params t member).tidy.combine_singleton .intersection)
  promises := Ty.covers_self (normal.result.tidy.combine_singleton .union)

variable {left right joined : MethodType}

/-- What a join of two method types is made of. -/
theorem join?_eq_some (found : left.join? right = some joined) :
    left.typeParams = right.typeParams ∧ left.block = right.block ∧
      ∃ pairs : Params (Ty × Ty), pairs.map Prod.fst = left.params ∧
        pairs.map Prod.snd = right.params ∧
        joined = { left with
          params := pairs.map fun pair => Ty.intersection [pair.1, pair.2]
          result := Ty.union [left.result, right.result] } := by
  by_cases agree : left.typeParams = right.typeParams ∧ left.block = right.block
  · rw [join?, if_pos agree, Option.map_eq_some_iff] at found
    obtain ⟨params, combined, rfl⟩ := found
    obtain ⟨pairs, lefts, rights, rfl⟩ := Params.zipWith?_eq_some_iff.1 combined
    exact ⟨agree.1, agree.2, pairs, lefts, rights, rfl⟩
  · rw [join?, if_neg agree] at found
    cases found

/-- **A join restricts its right side.** -/
theorem restricts_right_of_join? (found : left.join? right = some joined) :
    joined.Restricts right := by
  obtain ⟨typeParams, block, pairs, _, rights, rfl⟩ := join?_eq_some found
  refine ⟨typeParams, block, ?_, ?_, Ty.covers_combine_right .union _ _⟩
  · rw [← rights]
    exact Params.sameShape_map_map _ _ pairs
  · rw [← rights, Params.toList_map, Params.toList_map, List.forall₂_map_left_iff,
      List.forall₂_map_right_iff]
    exact List.forall₂_same.2 fun pair _ => Ty.covers_combine_right .intersection _ _

/-- **A join inherits from its left side.** -/
theorem inherits_of_join? (found : left.join? right = some joined) : joined.Inherits left := by
  obtain ⟨_, _, pairs, lefts, _, rfl⟩ := join?_eq_some found
  intro other restricts
  refine ⟨restricts.typeParams, restricts.block, ?_, ?_,
    Ty.covers_combine_of_covers restricts.promises _⟩
  · have shape := restricts.shape
    rw [← lefts] at shape
    exact (Params.sameShape_map_map _ _ pairs).trans shape
  · have demands := restricts.demands
    rw [← lefts, Params.toList_map, List.forall₂_map_left_iff] at demands
    rw [Params.toList_map, List.forall₂_map_left_iff]
    exact demands.imp fun pair t covers => Ty.covers_combine_of_covers covers pair.2

/-- A join restricts itself: all it consists of is built already. -/
theorem restricts_self_of_join? (found : left.join? right = some joined) :
    joined.Restricts joined := by
  obtain ⟨_, _, pairs, _, _, rfl⟩ := join?_eq_some found
  refine ⟨rfl, rfl, rfl, ?_, Ty.covers_self (Ty.combine_combine .union _)⟩
  rw [Params.toList_map]
  refine List.forall₂_same.2 fun t member => ?_
  obtain ⟨pair, _, rfl⟩ := List.mem_map.1 member
  exact Ty.covers_self (Ty.combine_combine .intersection _)

end MethodType

/-! ### Joining two interfaces -/

namespace JoinRule

theorem mem_foldl_addJoined {o : Overload} {overloads kept : List Overload}
    (member : o ∈ overloads.foldl addJoined kept) : o ∈ kept ∨ o ∈ overloads := by
  induction overloads generalizing kept with
  | nil => exact Or.inl member
  | cons first rest ih =>
    rcases ih member with old | new
    · by_cases present : first.type ∈ kept.map Overload.type
      · rw [addJoined, if_pos present] at old
        exact Or.inl old
      · rw [addJoined, if_neg present, List.mem_append, List.mem_singleton] at old
        rcases old with older | rfl
        · exact Or.inl older
        · exact Or.inr List.mem_cons_self
    · exact Or.inr (List.mem_cons_of_mem _ new)

/-- The method type of a joined overload is one that both sides have, or the join of one of each. -/
def IsJoinOf (joined left right : MethodType) : Prop :=
  (joined = left ∧ joined = right) ∨ left.join? right = some joined

/-- Every overload of joined overload lists comes from one overload on each side. -/
theorem exists_isJoinOf_of_mem_joinOverloads {ls rs js : List Overload}
    (found : structural.joinOverloads ls rs = some js) {j : Overload} (member : j ∈ js) :
    ∃ l ∈ ls, ∃ r ∈ rs, IsJoinOf j.type l.type r.type := by
  by_cases agree : ls.map Overload.type = rs.map Overload.type
  · rw [joinOverloads, if_pos agree, Option.some.injEq] at found
    subst found
    have inRight : j.type ∈ rs.map Overload.type := agree ▸ List.mem_map_of_mem member
    obtain ⟨r, isRight, same⟩ := List.mem_map.1 inRight
    exact ⟨j, member, r, isRight, Or.inl ⟨rfl, same.symm⟩⟩
  · rw [joinOverloads, if_neg agree] at found
    have inPairs : j ∈ structural.joinPairs ls rs := by
      cases joined : structural.joinPairs ls rs with
      | nil => rw [joined] at found; cases found
      | cons first rest =>
        rw [joined, Option.some.injEq] at found
        exact found ▸ member
    rcases mem_foldl_addJoined inPairs with impossible | paired
    · cases impossible
    · obtain ⟨l, isLeft, fromLeft⟩ := List.mem_flatMap.1 paired
      obtain ⟨r, isRight, fromBoth⟩ := List.mem_filterMap.1 fromLeft
      refine ⟨l, isLeft, r, isRight, ?_⟩
      by_cases same : l.type = r.type
      · rw [structural, Overload.join?, if_pos same, Option.some.injEq] at fromBoth
        subst fromBoth
        exact Or.inl ⟨rfl, same⟩
      · rw [structural, Overload.join?, if_neg same, Option.map_eq_some_iff] at fromBoth
        obtain ⟨type, joined, rfl⟩ := fromBoth
        exact Or.inr joined

theorem find?_join (rule : JoinRule) (selfType : Ty) (includesPrivate : Bool)
    (left right : Interface) (name : Name) :
    (rule.join selfType includesPrivate left right).find? name =
      (left.find? name).bind fun ls => (right.find? name).bind (rule.joinOverloads ls) :=
  NameMap.find?_filterMap _ _ _

/-- Every overload of an interface restricts itself. -/
def IsBuilt (i : Interface) : Prop :=
  ∀ name overloads, i.find? name = some overloads → ∀ o ∈ overloads, o.type.Restricts o.type

variable {selfType : Ty} {includesPrivate : Bool}

/-- **One join**: each overload inherits from one on the left and restricts one on the right. -/
theorem find?_join_spec {left right : Interface} (built : IsBuilt left) {name : Name}
    {js : List Overload}
    (offered : (structural.join selfType includesPrivate left right).find? name = some js) :
    (∃ ls, left.find? name = some ls ∧ ∀ j ∈ js, ∃ l ∈ ls, j.type.Inherits l.type) ∧
      ∃ rs, right.find? name = some rs ∧ ∀ j ∈ js, ∃ r ∈ rs, j.type.Restricts r.type := by
  rw [find?_join, Option.bind_eq_some_iff] at offered
  obtain ⟨ls, inLeft, offered⟩ := offered
  obtain ⟨rs, inRight, joined⟩ := Option.bind_eq_some_iff.1 offered
  refine ⟨⟨ls, inLeft, fun j member => ?_⟩, ⟨rs, inRight, fun j member => ?_⟩⟩
  · obtain ⟨l, isLeft, r, _, ⟨same, _⟩ | new⟩ :=
      exists_isJoinOf_of_mem_joinOverloads joined member
    · exact ⟨l, isLeft, fun other restricts => same ▸ restricts⟩
    · exact ⟨l, isLeft, MethodType.inherits_of_join? new⟩
  · obtain ⟨l, isLeft, r, isRight, ⟨same, same'⟩ | new⟩ :=
      exists_isJoinOf_of_mem_joinOverloads joined member
    · refine ⟨r, isRight, ?_⟩
      have selfRestricts := built name ls inLeft l isLeft
      rw [← same] at selfRestricts
      exact same' ▸ selfRestricts
    · exact ⟨r, isRight, MethodType.restricts_right_of_join? new⟩

theorem isBuilt_join {left : Interface} (built : IsBuilt left) (right : Interface) :
    IsBuilt (structural.join selfType includesPrivate left right) := by
  intro name js offered j member
  rw [find?_join, Option.bind_eq_some_iff] at offered
  obtain ⟨ls, inLeft, offered⟩ := offered
  obtain ⟨rs, _, joined⟩ := Option.bind_eq_some_iff.1 offered
  obtain ⟨l, isLeft, r, _, ⟨same, _⟩ | new⟩ := exists_isJoinOf_of_mem_joinOverloads joined member
  · rw [same]
    exact built name ls inLeft l isLeft
  · exact MethodType.restricts_self_of_join? new

/-! ### Joining all members -/

/-- What holds of one join, carried through the joins with all further interfaces. -/
theorem find?_foldl_join_spec {left : Interface} (built : IsBuilt left) (rest : List Interface)
    {name : Name} {js : List Overload}
    (offered :
      (rest.foldl (structural.join selfType includesPrivate) left).find? name = some js) :
    (∃ ls, left.find? name = some ls ∧ ∀ j ∈ js, ∃ l ∈ ls, j.type.Inherits l.type) ∧
      ∀ i ∈ rest, ∃ os, i.find? name = some os ∧ ∀ j ∈ js, ∃ o ∈ os, j.type.Restricts o.type := by
  induction rest generalizing left with
  | nil =>
    exact ⟨⟨js, offered, fun j member => ⟨j, member, fun _ restricts => restricts⟩⟩,
      fun i member => by cases member⟩
  | cons right rest ih =>
    obtain ⟨⟨ks, inJoin, inherited⟩, later⟩ := ih (isBuilt_join built right) offered
    obtain ⟨⟨ls, inLeft, fromLeft⟩, ⟨rs, inRight, fromRight⟩⟩ := find?_join_spec built inJoin
    refine ⟨⟨ls, inLeft, fun j member => ?_⟩, fun i isMember => ?_⟩
    -- What the later joins inherit from this one, they inherit from its left side.
    · obtain ⟨k, isJoined, inherits⟩ := inherited j member
      obtain ⟨l, isLeft, inherits'⟩ := fromLeft k isJoined
      exact ⟨l, isLeft, fun other restricts => inherits other (inherits' other restricts)⟩
    · rcases List.mem_cons.1 isMember with rfl | inRest
      · refine ⟨rs, inRight, fun j member => ?_⟩
        obtain ⟨k, isJoined, inherits⟩ := inherited j member
        obtain ⟨r, isRight, restricts⟩ := fromRight k isJoined
        exact ⟨r, isRight, inherits r.type restricts⟩
      · exact later i inRest

/-- **Soundness of joined interfaces.** A method of the joined interface is a method of every member,
and each of its overloads restricts an overload of every member. Only the overloads of the first
member need to be in normal form: what is joined to them is built again. -/
theorem joinAll_restricts {first : Interface} (normal : first.IsNormal) (rest : List Interface)
    {name : Name} {js : List Overload}
    (offered :
      (structural.joinAll selfType includesPrivate (first :: rest)).find? name = some js) :
    ∀ i ∈ first :: rest, ∃ os, i.find? name = some os ∧
      ∀ j ∈ js, ∃ o ∈ os, j.type.Restricts o.type := by
  have built : IsBuilt first := fun name os found o member =>
    MethodType.restricts_self (normal name os found o member)
  obtain ⟨⟨ls, inFirst, inherited⟩, later⟩ := find?_foldl_join_spec built rest offered
  intro i isMember
  rcases List.mem_cons.1 isMember with rfl | inRest
  · refine ⟨ls, inFirst, fun j member => ?_⟩
    obtain ⟨l, isFirst, inherits⟩ := inherited j member
    exact ⟨l, isFirst, inherits l.type (built name ls inFirst l isFirst)⟩
  · exact later i inRest

/-- Three members, of which the last one promises nothing: the second one's overload
`(boolean) -> nil` is restricted by the joined `(nil & boolean) -> untyped`. -/
theorem joinAll_restricts_boolean_nil :
    let nilToBoolean := Interface.ofMethod .empty [.ofTypes (.positional [.nil]) .boolean]
    let booleanToNil := Interface.ofMethod .empty [.ofTypes (.positional [.boolean]) .nil]
    let topToAny := Interface.ofMethod .empty [.ofTypes (.positional [.top]) .any]
    let joined :=
      Overload.ofTypes (.positional [⟨.compound .intersection [.nil, .boolean]⟩]) .any
    nilToBoolean.IsNormal ∧
      (structural.joinAll .selfType false [nilToBoolean, booleanToNil, topToAny]).find? .empty =
        some [joined] ∧
      ∃ os, booleanToNil.find? .empty = some os ∧ ∃ o ∈ os, joined.type.Restricts o.type := by
  intro nilToBoolean booleanToNil topToAny joined
  have normal : nilToBoolean.IsNormal := Interface.isNormal_ofMethod fun o member => by
    rw [List.mem_singleton.1 member]
    exact ⟨by decide, nofun, nofun, by decide⟩
  have offered : (structural.joinAll .selfType false
      [nilToBoolean, booleanToNil, topToAny]).find? .empty = some [joined] := by decide
  obtain ⟨os, found, each⟩ := joinAll_restricts normal [booleanToNil, topToAny] offered
    booleanToNil (by simp)
  exact ⟨normal, offered, os, found, each joined List.mem_cons_self⟩

end JoinRule

end SignatureAlgebra
