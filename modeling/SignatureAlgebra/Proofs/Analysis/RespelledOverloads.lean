/-
**Overloads whose variables get other names.**

As long as different variables get different names, overloads can be joined after their variables get other
names exactly if they can be joined before, and the join is the one before with the other names. The type
parameters of an overload keep their names: they are what must not be among the variables.

* `MethodType.respell`, `Overload.respell` — other names for the variables of all types.
* `MethodType.IsOver` — all types are in normal form over some variables.
* `MethodType.join?_respell`, `Overload.join?_respell` — the join of respelled overloads.
* `JoinRule.IgnoresSpelling`, `JoinRule.ignoresSpelling_structural` — rules for which this holds.
* `JoinRule.relates_respelled` — lists of overloads.
-/
import SignatureAlgebra.Proofs.Analysis.Vocabulary
import SignatureAlgebra.Proofs.Interface.Matching
import SignatureAlgebra.Proofs.Ty.Respelling

namespace SignatureAlgebra

variable {f g : Name → Name} {names : Set Name}

namespace MethodType

/-- Gives the variables in a method type other names, apart from its type parameters. -/
def respell (f : Name → Name) (type : MethodType) : MethodType := type.replace (.ofVars f)

/-- Every type of a method type is in normal form over some variables. -/
def IsOver (names : Set Name) (type : MethodType) : Prop := ∀ t ∈ type.types, t.IsWithin (.over names)

variable {type type' left right joined : MethodType}

/-- **Other names can be taken back**, one name for each variable. -/
theorem exists_respell_respell (injective : Set.InjOn f names) :
    ∃ g : Name → Name, ∀ type : MethodType, type.IsOver names → (type.respell f).respell g = type := by
  obtain ⟨g, back⟩ := Ty.exists_respell_respell injective
  refine ⟨g, fun type within => ?_⟩
  have normalized : ∀ t ∈ type.types, t.normalize = t := fun t isType =>
    Ty.normalize_eq_self (Ty.isWithin_over_iff.1 (within t isType)).1
  have twice : (type.replace (.ofVars f)).replace (.ofVars g) = type.replace .identity :=
    type.replace_replace fun t isType => (back t (within t isType)).trans (normalized t isType).symm
  exact twice.trans (replace_eq_self normalized)

/-- **Different method types are respelled to different ones.** -/
theorem respell_injective (injective : Set.InjOn f names) (within : type.IsOver names)
    (within' : type'.IsOver names) (same : type.respell f = type'.respell f) : type = type' := by
  obtain ⟨g, back⟩ := exists_respell_respell injective
  rw [← back type within, same, back type' within']

theorem isOver_respell (f : Name → Name) (within : type.IsOver names) :
    (type.respell f).IsOver (f '' names) := by
  intro t isType
  rw [respell, types_replace] at isType
  obtain ⟨u, isType', rfl⟩ := List.mem_map.1 isType
  exact Ty.isWithin_respell f (within u isType')

/-! ### Joining -/

/-- The join of method types, with other names. -/
theorem join?_respell_of_some (within : left.IsOver names) (within' : right.IsOver names)
    (found : left.join? right = some joined) :
    (left.respell f).join? (right.respell f) = some (joined.respell f) := by
  obtain ⟨typeParams, block, pairs, lefts, rights, rfl⟩ := join?_eq_some found
  have normal : ∀ t ∈ left.types, t.IsNormal := fun t isType =>
    (Ty.isWithin_over_iff.1 (within t isType)).1
  have normal' : ∀ t ∈ right.types, t.IsNormal := fun t isType =>
    (Ty.isWithin_over_iff.1 (within' t isType)).1
  have agree : (left.respell f).typeParams = (right.respell f).typeParams ∧
      (left.respell f).block = (right.respell f).block := by
    simp only [respell, replace, typeParams, block, and_self]
  have params : (left.respell f).params.zipWith? (fun l r => Ty.intersection [l, r])
      (right.respell f).params =
        some ((pairs.map fun pair => Ty.intersection [pair.1, pair.2]).map (Ty.respell f)) := by
    refine Params.zipWith?_eq_some_iff.2
      ⟨pairs.map fun pair => (pair.1.respell f, pair.2.respell f), ?_, ?_, ?_⟩
    · rw [Params.map_map, respell, replace, ← lefts, Params.map_map]
      rfl
    · rw [Params.map_map, respell, replace, ← rights, Params.map_map]
      rfl
    · rw [Params.map_map, Params.map_map]
      refine Params.map_congr fun pair isPair => (Ty.respell_combine_pair ?_ ?_).symm
      · refine normal _ (mem_types.2 (Or.inl ?_))
        rw [← lefts, Params.toList_map]
        exact List.mem_map_of_mem isPair
      · refine normal' _ (mem_types.2 (Or.inl ?_))
        rw [← rights, Params.toList_map]
        exact List.mem_map_of_mem isPair
  have result : Ty.union [left.result.respell f, right.result.respell f] =
      (Ty.union [left.result, right.result]).respell f :=
    (Ty.respell_combine_pair (normal _ (mem_types.2 (Or.inr (Or.inr rfl))))
      (normal' _ (mem_types.2 (Or.inr (Or.inr rfl))))).symm
  rw [join?, if_pos agree, params, Option.map_some]
  exact congrArg (fun t => some (MethodType.mk left.typeParams
    ((pairs.map fun pair : Ty × Ty => Ty.intersection [pair.1, pair.2]).map (Ty.respell f))
    (left.respell f).block t)) result

/-- **Respelled method types are joined exactly if they are before**, and to the respelled join. -/
theorem join?_respell (injective : Set.InjOn f names) (within : left.IsOver names)
    (within' : right.IsOver names) :
    (left.respell f).join? (right.respell f) = (left.join? right).map (respell f) := by
  cases found : left.join? right with
  | some joined => exact join?_respell_of_some within within' found
  | none =>
    -- A join of the respelled ones would be one of these after taking the names back.
    obtain ⟨g, back⟩ := exists_respell_respell injective
    cases found' : (left.respell f).join? (right.respell f) with
    | none => rfl
    | some joined =>
      have taken := join?_respell_of_some (f := g) (isOver_respell f within) (isOver_respell f within') found'
      rw [back left within, back right within', found] at taken
      cases taken

end MethodType

/-! ### Overloads -/

/-- Gives the variables in an overload other names, apart from its type parameters. -/
def Overload.respell (f : Name → Name) (o : Overload) : Overload := { o with type := o.type.respell f }

/-- **An overload and the one it becomes with other names**, both over the variables that get them. -/
def Overload.Respelled (f : Name → Name) (names : Set Name) (o o' : Overload) : Prop :=
  o' = o.respell f ∧ o.type.IsOver names

namespace JoinRule

/-- **A rule that joins overloads without regard to the names of variables.** -/
structure IgnoresSpelling (rule : JoinRule) : Prop where
  keeps : ∀ names, rule.Keeps (MethodType.IsOver names)
  respell : ∀ (f : Name → Name) (names : Set Name) (l r : Overload), Set.InjOn f names →
    l.type.IsOver names → r.type.IsOver names →
      rule (l.respell f) (r.respell f) = (rule l r).map (Overload.respell f)

theorem ignoresSpelling_structural : structural.IgnoresSpelling where
  keeps names := keeps_types fun _ _ _ within => Ty.isWithin_combine (v := .over names) within
  respell f names l r injective within within' := by
    by_cases same : l.type = r.type
    · have same' : (l.respell f).type = (r.respell f).type := congrArg (MethodType.respell f) same
      rw [structural, Overload.join?, Overload.join?, if_pos same, if_pos same']
      rfl
    · have different : (l.respell f).type ≠ (r.respell f).type := fun same' =>
        same (MethodType.respell_injective injective within within' same')
      have joined : (l.respell f).type.join? (r.respell f).type =
          (l.type.join? r.type).map (MethodType.respell f) :=
        MethodType.join?_respell injective within within'
      rw [structural, Overload.join?, Overload.join?, if_neg same, if_neg different, joined,
        Option.map_map, Option.map_map]
      rfl

variable {rule : JoinRule}

/-- The method types of two lists agree exactly if those of the respelled lists do. -/
theorem map_type_respell_eq_iff (injective : Set.InjOn f names) {ls rs : List Overload}
    (within : ∀ l ∈ ls, l.type.IsOver names) (within' : ∀ r ∈ rs, r.type.IsOver names) :
    (ls.map (Overload.respell f)).map Overload.type = (rs.map (Overload.respell f)).map Overload.type ↔
      ls.map Overload.type = rs.map Overload.type := by
  obtain ⟨g, back⟩ := MethodType.exists_respell_respell injective
  have taken : ∀ {os : List Overload}, (∀ o ∈ os, o.type.IsOver names) →
      ((os.map (Overload.respell f)).map Overload.type).map (MethodType.respell g) =
        os.map Overload.type := fun within => by
    rw [List.map_map, List.map_map]
    exact List.map_congr_left fun o member => back o.type (within o member)
  constructor
  · intro same
    rw [← taken within, same, taken within']
  · intro same
    have each : ∀ os : List Overload, (os.map (Overload.respell f)).map Overload.type =
        (os.map Overload.type).map (MethodType.respell f) := fun os => by
      rw [List.map_map, List.map_map]
      rfl
    rw [each, each, same]

theorem foldl_addJoined_respell (injective : Set.InjOn f names) {os kept : List Overload}
    (within : ∀ o ∈ os, o.type.IsOver names) (within' : ∀ o ∈ kept, o.type.IsOver names) :
    (os.map (Overload.respell f)).foldl addJoined (kept.map (Overload.respell f)) =
      (os.foldl addJoined kept).map (Overload.respell f) := by
  induction os generalizing kept with
  | nil => rfl
  | cons o rest ih =>
    obtain ⟨here, later⟩ := List.forall_mem_cons.1 within
    have present : (o.respell f).type ∈ (kept.map (Overload.respell f)).map Overload.type ↔
        o.type ∈ kept.map Overload.type := by
      rw [List.map_map]
      constructor
      · intro member
        obtain ⟨o', isKept, same⟩ := List.mem_map.1 member
        exact List.mem_map.2 ⟨o', isKept,
          MethodType.respell_injective injective (within' o' isKept) here same⟩
      · intro member
        obtain ⟨o', isKept, same⟩ := List.mem_map.1 member
        exact List.mem_map.2 ⟨o', isKept, congrArg (MethodType.respell f) same⟩
    rw [List.map_cons, List.foldl_cons, List.foldl_cons]
    by_cases known : o.type ∈ kept.map Overload.type
    · rw [addJoined, addJoined, if_pos known, if_pos (present.2 known)]
      exact ih later within'
    · rw [addJoined, addJoined, if_neg known, if_neg fun member => known (present.1 member)]
      have more : ∀ o' ∈ kept ++ [o], o'.type.IsOver names := by
        intro o' member
        rcases List.mem_append.1 member with old | new
        · exact within' o' old
        · exact List.mem_singleton.1 new ▸ here
      have next := ih later more
      rwa [List.map_append, List.map_singleton] at next

theorem joinPairs_respell (ignores : rule.IgnoresSpelling) (injective : Set.InjOn f names)
    {ls rs : List Overload} (within : ∀ l ∈ ls, l.type.IsOver names)
    (within' : ∀ r ∈ rs, r.type.IsOver names) :
    rule.joinPairs (ls.map (Overload.respell f)) (rs.map (Overload.respell f)) =
      (rule.joinPairs ls rs).map (Overload.respell f) := by
  have joined : ∀ j ∈ ls.flatMap fun l => rs.filterMap fun r => rule l r, j.type.IsOver names := by
    intro j member
    obtain ⟨l, isLeft, fromLeft⟩ := List.mem_flatMap.1 member
    obtain ⟨r, isRight, fromBoth⟩ := List.mem_filterMap.1 fromLeft
    exact ignores.keeps names l r j (within l isLeft) (within' r isRight) fromBoth
  have pairs : ((ls.map (Overload.respell f)).flatMap fun l =>
      (rs.map (Overload.respell f)).filterMap fun r => rule l r) =
        (ls.flatMap fun l => rs.filterMap fun r => rule l r).map (Overload.respell f) := by
    rw [List.flatMap_map, List.map_flatMap]
    refine List.flatMap_congr fun l isLeft => ?_
    rw [List.filterMap_map, List.map_filterMap]
    exact List.filterMap_congr fun r isRight =>
      ignores.respell f names l r injective (within l isLeft) (within' r isRight)
  rw [joinPairs, joinPairs, pairs]
  exact foldl_addJoined_respell injective joined (List.forall_mem_nil _)

/-- **Joining keeps overloads respelled.** -/
theorem relates_respelled (ignores : rule.IgnoresSpelling) (injective : Set.InjOn f names) :
    rule.Relates (Overload.Respelled f names) := by
  intro ls ls' rs rs' pairs pairs'
  obtain ⟨rfl, within⟩ := forall₂_eq_map_iff.1 pairs
  obtain ⟨rfl, within'⟩ := forall₂_eq_map_iff.1 pairs'
  have same : rule.joinOverloads (ls.map (Overload.respell f)) (rs.map (Overload.respell f)) =
      (rule.joinOverloads ls rs).map (List.map (Overload.respell f)) := by
    rw [joinOverloads, joinOverloads, joinPairs_respell ignores injective within within']
    by_cases agree : ls.map Overload.type = rs.map Overload.type
    · rw [if_pos agree, if_pos ((map_type_respell_eq_iff injective within within').2 agree)]
      rfl
    · have agree_iff := map_type_respell_eq_iff injective within within'
      rw [if_neg agree, if_neg fun agree' => agree (agree_iff.1 agree')]
      cases rule.joinPairs ls rs <;> rfl
  rw [same]
  cases joined : rule.joinOverloads ls rs with
  | none => exact .none
  | some js =>
    exact .some (forall₂_eq_map_iff.2 ⟨rfl, (ignores.keeps names).joinOverloads within within' joined⟩)

end JoinRule

end SignatureAlgebra
