/-
**The algebra of joins.**

Joining overloads is a partial operation on method types. It is there for overloads that agree in their type
parameters, their block and the shape of their parameters, and for no others; overloads of one method type
are joined to it; and three overloads come to the same in either grouping. Which overload is on the left
shows in the order of the members alone, but for places where two different words meet that absorb the
others: there the one on the left is all that is left.

* `Ty.Clash`, `Ty.sameMembers_swap_iff` — where the order of two types counts.
* `MethodType.join?_self`, `MethodType.blend?_eq_join?_of_normal` — joining equal overloads is no case of its own.
* `Overload.AgreesWith` — what overloads that can be joined agree in; an equivalence.
* `JoinRule.IsLawful`, `JoinRule.isLawful_structural` — the laws, and that the structural rule has them.
-/
import SignatureAlgebra.Proofs.Interface.Regrouping
import SignatureAlgebra.Proofs.Ty.Connecting

namespace SignatureAlgebra

/-! ### Two types in either order -/

namespace Ty

variable {c : Connective} {t u : Ty}

/-- Whether one of two types is `any` and the other one is the other word that absorbs. -/
def Clash (c : Connective) (t u : Ty) : Prop :=
  (t = .any ∧ u = ⟨.base c.zero⟩) ∨ (t = ⟨.base c.zero⟩ ∧ u = .any)

instance : Decidable (Clash c t u) := inferInstanceAs (Decidable (_ ∨ _))

theorem clash_iff : Clash c t u ↔ c.absorbs t = true ∧ c.absorbs u = true ∧ t ≠ u := by
  have different : (.any : Ty) ≠ ⟨.base c.zero⟩ := by cases c <;> decide
  constructor
  · rintro (⟨rfl, rfl⟩ | ⟨rfl, rfl⟩)
    · exact ⟨absorbs_iff.2 (Or.inl rfl), absorbs_iff.2 (Or.inr rfl), different⟩
    · exact ⟨absorbs_iff.2 (Or.inr rfl), absorbs_iff.2 (Or.inl rfl), different.symm⟩
  · rintro ⟨absorbs, absorbs', other⟩
    rcases absorbs_iff.1 absorbs with rfl | rfl <;> rcases absorbs_iff.1 absorbs' with rfl | rfl
    · exact absurd rfl other
    · exact Or.inl ⟨rfl, rfl⟩
    · exact Or.inr ⟨rfl, rfl⟩
    · exact absurd rfl other

/-- In a type in normal form only the type itself can be a word that absorbs. -/
theorem find?_absorbs_of_normal (normal : t.IsNormal) :
    (leaves c t).find? c.absorbs = if c.absorbs t then some t else none := by
  obtain single | ⟨members, connected, rfl, all⟩ := leaves_of_normal (c := c) normal
  · rw [single, List.find?_singleton]
  · have silent : c.absorbs ⟨.compound c members⟩ = false := by simp [Connective.absorbs]
    rw [all, silent, List.find?_eq_none.2 fun leaf isMember => ?_]
    · rfl
    · rw [(connected.plain leaf isMember).not_absorbs]
      exact Bool.false_ne_true

theorem firstAbsorbing_pair (normal : t.IsNormal) (normal' : u.IsNormal) :
    firstAbsorbing c [t, u] = if c.absorbs t then some t else if c.absorbs u then some u else none := by
  rw [firstAbsorbing, List.flatMap_cons, List.flatMap_singleton, List.find?_append,
    find?_absorbs_of_normal normal, find?_absorbs_of_normal normal']
  cases c.absorbs t <;> rfl

/-- **Two types in either order** are connected to the same members, unless they are the two different words
that absorb. -/
theorem sameMembers_swap_iff (normal : t.IsNormal) (normal' : u.IsNormal) :
    SameMembers c (combine c [t, u]) (combine c [u, t]) ↔ ¬ Clash c t u := by
  have same : SameLeaves c [t, u] [u, t] := fun leaf => by simp [or_comm]
  rw [sameMembers_combine_iff same, firstAbsorbing_pair normal normal', firstAbsorbing_pair normal' normal,
    clash_iff]
  cases absorbs : c.absorbs t <;> cases absorbs' : c.absorbs u <;> simp

end Ty

/-! ### Method types in normal form -/

namespace MethodType

variable {x y : MethodType}

/-- **A method type in normal form is joined to itself**: what is connected with itself is built already. -/
theorem join?_self (normal : x.IsNormal) : x.join? x = some x := by
  have twice : ∀ (c : Connective) {t : Ty}, t.IsNormal → Ty.combine c [t, t] = t := fun c _ isNormal =>
    Ty.covers_self (isNormal.tidy.combine_singleton c)
  have params : (x.params.map fun t => Ty.intersection [t, t]) = x.params :=
    (Params.map_congr fun t isParam => twice .intersection (normal.params t isParam)).trans x.params.map_id
  have joined := join?_rows x.typeParams x.block x.params id id x.result x.result
  simp only [id_eq, params, Params.map_id] at joined
  rw [joined, Ty.union, twice .union normal.result]

/-- Among method types in normal form, joining equal ones is no case of its own. -/
theorem blend?_eq_join?_of_normal (normal : x.IsNormal) : x.blend? y = x.join? y := by
  by_cases same : x = y
  · subst same
    rw [blend?_self, join?_self normal]
  · exact blend?_of_ne same

/-- The parameters of two method types stand in the same rows, and so do those of their joins in both orders. -/
theorem join?_bothWays {j j' : MethodType} (found : x.join? y = some j) (found' : y.join? x = some j') :
    ∃ rows : Params (Ty × Ty), x.params = rows.map Prod.fst ∧ y.params = rows.map Prod.snd ∧
      (j.params = rows.map fun row => Ty.intersection [row.1, row.2]) ∧
      (j'.params = rows.map fun row => Ty.intersection [row.2, row.1]) ∧
      j.result = Ty.union [x.result, y.result] ∧ j'.result = Ty.union [y.result, x.result] := by
  obtain ⟨_, _, rows, ofX, ofY, rfl⟩ := join?_eq_some found
  obtain ⟨_, _, pairs, ofY', ofX', rfl⟩ := join?_eq_some found'
  -- Two lists have one pairing only.
  have paired : y.params.zip? x.params = some (rows.map Prod.swap) :=
    Params.zip?_eq_some_iff.2 ⟨by rw [Params.map_map, ← ofY]; rfl, by rw [Params.map_map, ← ofX]; rfl⟩
  obtain rfl := Option.some.inj (paired.symm.trans (Params.zip?_eq_some_iff.2 ⟨ofY', ofX'⟩))
  exact ⟨rows, ofX.symm, ofY.symm, rfl, Params.map_map _ _ rows, rfl, rfl⟩

theorem blend?_eq_none_iff : x.blend? y = none ↔ x.form ≠ y.form := by
  constructor
  · rintro missing same
    obtain ⟨j, found⟩ := exists_blend? same
    cases missing.symm.trans found
  · intro different
    rw [blend?_of_ne fun same => different (congrArg form same)]
    exact Option.eq_none_iff_forall_ne_some.2 fun j found => different (exists_join?_iff.1 ⟨j, found⟩)

/-- **Three method types come to the same in either grouping**: they have no join in both, or the same one. -/
theorem bind_blend?_assoc (x y z : MethodType) :
    (x.blend? y).bind (·.blend? z) = (y.blend? z).bind x.blend? := by
  by_cases same : x.form = y.form
  · by_cases same' : y.form = z.form
    · exact blend?_assoc same same'
    · rw [blend?_eq_none_iff.2 same', Option.bind_none, Option.bind_eq_none_iff]
      intro j found
      rw [blend?_eq_none_iff, form_of_blend? found, same]
      exact same'
  · rw [blend?_eq_none_iff.2 same, Option.bind_none, eq_comm, Option.bind_eq_none_iff]
    intro j found
    rw [blend?_eq_none_iff, form_of_blend? found]
    exact same

end MethodType

/-! ### The laws of joining overloads -/

namespace Overload

/-- Whether two overloads agree in all but the types of their parameters and of their result. -/
structure AgreesWith (left right : Overload) : Prop where
  typeParams : left.type.typeParams = right.type.typeParams
  block : left.type.block = right.type.block
  shape : left.type.params.SameShape right.type.params

theorem agreesWith_iff {left right : Overload} : left.AgreesWith right ↔ left.type.form = right.type.form := by
  constructor
  · rintro ⟨typeParams, block, shape⟩
    exact MethodType.Form.mk.injEq .. ▸ ⟨typeParams, block, shape⟩
  · intro same
    obtain ⟨typeParams, block, shape⟩ := MethodType.Form.mk.inj same
    exact ⟨typeParams, block, shape⟩

theorem equivalence_agreesWith : Equivalence AgreesWith where
  refl _ := agreesWith_iff.2 rfl
  symm agrees := agreesWith_iff.2 (agreesWith_iff.1 agrees).symm
  trans agrees agrees' := agreesWith_iff.2 ((agreesWith_iff.1 agrees).trans (agreesWith_iff.1 agrees'))

/-- **What joining two overloads in either order gives**: overloads that agree, with the same members at each
parameter and in the result, in any order, but for places where two different words meet that absorb. -/
structure OrderOnly (left right joined joined' : Overload) : Prop where
  agree : joined.AgreesWith joined'
  params : ∀ (i : Nat) (t u : Ty),
    left.type.params.toList[i]? = some t → right.type.params.toList[i]? = some u →
      ∃ a b, joined.type.params.toList[i]? = some a ∧ joined'.type.params.toList[i]? = some b ∧
        (Ty.SameMembers .intersection a b ↔ ¬ Ty.Clash .intersection t u)
  result : Ty.SameMembers .union joined.type.result joined'.type.result ↔
    ¬ Ty.Clash .union left.type.result right.type.result

variable {left right joined joined' : Overload}

theorem type_join?_of_normal (normal : left.type.IsNormal) (found : left.join? right = some joined) :
    left.type.join? right.type = some joined.type := by
  rw [← MethodType.blend?_eq_join?_of_normal normal, ← JoinRule.type_join?, found]
  rfl

/-- **Overloads in normal form may change sides**: only the order of members changes. -/
theorem orderOnly_join? (normal : left.type.IsNormal) (normal' : right.type.IsNormal)
    (found : left.join? right = some joined) (found' : right.join? left = some joined') :
    OrderOnly left right joined joined' := by
  obtain ⟨rows, ofLeft, ofRight, params, params', result, result'⟩ := MethodType.join?_bothWays
    (type_join?_of_normal normal found) (type_join?_of_normal normal' found')
  refine ⟨?_, fun i t u isLeft isRight => ?_, ?_⟩
  · exact agreesWith_iff.2 ((form_of_join? found).1.trans (form_of_join? found').2.symm)
  · have clash := Ty.sameMembers_swap_iff (c := .intersection)
      (normal.params t (List.mem_of_getElem? isLeft)) (normal'.params u (List.mem_of_getElem? isRight))
    rw [ofLeft, Params.toList_map, List.getElem?_map, Option.map_eq_some_iff] at isLeft
    rw [ofRight, Params.toList_map, List.getElem?_map, Option.map_eq_some_iff] at isRight
    obtain ⟨row, isRow, rfl⟩ := isLeft
    obtain ⟨row', isRow', rfl⟩ := isRight
    obtain rfl := Option.some.inj (isRow.symm.trans isRow')
    refine ⟨Ty.intersection [row.1, row.2], Ty.intersection [row.2, row.1], ?_, ?_, clash⟩
    · rw [params, Params.toList_map, List.getElem?_map, isRow, Option.map_some]
    · rw [params', Params.toList_map, List.getElem?_map, isRow, Option.map_some]
  · rw [result, result']
    exact Ty.sameMembers_swap_iff normal.result normal'.result

end Overload

namespace JoinRule

open Overload (AgreesWith OrderOnly)

/-- **The laws of a partial operation on overloads** of which only the method types count. -/
structure IsLawful (rule : JoinRule) : Prop where
  /-- Where overloads were declared has no bearing on the method type of their join. -/
  ignoresOrigins : ∀ {x y x' y' : Overload}, x.type = x'.type → y.type = y'.type →
    (rule x y).map Overload.type = (rule x' y').map Overload.type
  /-- Overloads that agree have a join, and no others do. -/
  isSome_iff : ∀ x y : Overload, (rule x y).isSome ↔ x.AgreesWith y
  /-- Overloads of one method type are joined to it. -/
  idempotent : ∀ {x y : Overload}, x.type = y.type → (rule x y).map Overload.type = some x.type
  /-- Three overloads come to the same in either grouping, or have no join in both. -/
  associative : ∀ x y z : Overload, ((rule x y).bind fun j => rule j z).map Overload.type =
    ((rule y z).bind fun j => rule x j).map Overload.type
  /-- Overloads in normal form may change sides. -/
  swaps : ∀ {x y j j' : Overload}, x.type.IsNormal → y.type.IsNormal →
    rule x y = some j → rule y x = some j' → OrderOnly x y j j'

/-- What is done with a join can be done with its method type alone, if only that counts. -/
theorem map_type_bind {f : Overload → Option Overload} {g : MethodType → Option MethodType}
    (onTypes : ∀ j, (f j).map Overload.type = g j.type) (o : Option Overload) :
    (o.bind f).map Overload.type = (o.map Overload.type).bind g := by
  cases o with
  | none => rfl
  | some j => exact onTypes j

/-- **The algebra of the structural join.** Overloads are compared by their method types. To agree in type
parameters, block and shape of the parameters is an equivalence, and overloads have a join exactly if they
agree. The join is idempotent and associative; with the sides exchanged it has the same members at every
place, in some order, exactly if that place has not `any` on one side and on the other the other word that
absorbs. -/
theorem isLawful_structural : Equivalence AgreesWith ∧ structural.IsLawful := by
  refine ⟨Overload.equivalence_agreesWith, ?_, fun x y => ?_, fun same => ?_, fun x y z => ?_, ?_⟩
  · intro x y x' y' same same'
    show (x.join? y).map Overload.type = (x'.join? y').map Overload.type
    rw [type_join?, type_join?, same, same']
  · rw [Overload.agreesWith_iff, ← Overload.exists_join?_iff, Option.isSome_iff_exists]
    rfl
  · show (Overload.join? _ _).map Overload.type = _
    rw [type_join?, ← same, MethodType.blend?_self]
  · show ((x.join? y).bind fun j => j.join? z).map _ = ((y.join? z).bind fun j => x.join? j).map _
    rw [map_type_bind (g := (·.blend? z.type)) fun j => type_join? j z,
      map_type_bind (g := x.type.blend?) fun j => type_join? x j, type_join?, type_join?]
    exact MethodType.bind_blend?_assoc x.type y.type z.type
  · intro x y j j' normal normal' found found'
    exact Overload.orderOnly_join? normal normal' found found'

/-- `(nil, any) -> nil | bool` and `(bool, bottom) -> bool | void`. With the sides exchanged the first parameter
and the result have the same members in another order; of the second parameter the word on the left is left. -/
theorem isLawful_structural_swapped :
    let nilOrBool : Ty := ⟨.compound .union [.nil, .boolean]⟩
    let boolOrVoid : Ty := ⟨.compound .union [.boolean, .void]⟩
    let left := Overload.ofTypes (.positional [.nil, .any]) nilOrBool
    let right := Overload.ofTypes (.positional [.boolean, .bottom]) boolOrVoid
    let joined := Overload.ofTypes (.positional [⟨.compound .intersection [.nil, .boolean]⟩, .any])
      ⟨.compound .union [.nil, .boolean, .void]⟩
    let joined' := Overload.ofTypes (.positional [⟨.compound .intersection [.boolean, .nil]⟩, .bottom])
      ⟨.compound .union [.boolean, .void, .nil]⟩
    left.type.IsNormal ∧ right.type.IsNormal ∧
      structural left right = some joined ∧ structural right left = some joined' ∧
      OrderOnly left right joined joined' ∧ Ty.Clash .intersection .any .bottom := by
  intro nilOrBool boolOrVoid left right joined joined'
  have normal : left.type.IsNormal := ⟨by decide, nofun, nofun, by decide⟩
  have normal' : right.type.IsNormal := ⟨by decide, nofun, nofun, by decide⟩
  have found : structural left right = some joined := by decide
  have found' : structural right left = some joined' := by decide
  exact ⟨normal, normal', found, found', isLawful_structural.2.swaps normal normal' found found', by decide⟩

end JoinRule

end SignatureAlgebra
