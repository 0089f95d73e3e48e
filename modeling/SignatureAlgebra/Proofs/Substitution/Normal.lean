/-
**Substitutions of types in normal form.**

A substitution that binds and fills types in normal form stays such a substitution when bindings are
added, merged in or dropped. Applied to a type in normal form it gives one in normal form: either it
binds and fills nothing, and the type stays as it is, or the type is built again.

* `Substitution.IsNormal` — the property of a substitution.
* `Substitution.find?_without` — what is bound when bindings are dropped.
* `Substitution.apply_of_normal`, `applyParams_of_normal`, `applyMethodType_of_normal` — on types in normal
  form, applying is replacing, also for the substitution that leaves everything as it is.
* `Substitution.IsNormal.apply`, `applyParams`, `applyMethodType` — what is applied.
-/
import SignatureAlgebra.Proofs.Analysis.Renaming
import SignatureAlgebra.Proofs.MethodType.Types
import SignatureAlgebra.Proofs.Ty.Rebuilding

namespace SignatureAlgebra

theorem NameMap.find?_foldl_erase {α : Type} (names : List Name) (m : NameMap α) (name : Name) :
    (names.foldl erase m).find? name = if name ∈ names then none else m.find? name := by
  induction names generalizing m with
  | nil => simp
  | cons first rest ih =>
    rw [List.foldl_cons, ih, find?_erase]
    by_cases here : name = first <;> by_cases later : name ∈ rest <;> simp [here, later]

/-- Every type that a substitution binds or fills in is in normal form. -/
structure Substitution.IsNormal (s : Substitution) : Prop where
  bound : ∀ name t, s.bindings.find? name = some t → t.IsNormal
  filled : ∀ word t, s.slot word = some t → t.IsNormal

namespace Substitution

variable {s other : Substitution} {t : Ty}

theorem find?_without (s : Substitution) (vars : List Name) (name : Name) :
    (s.without vars).bindings.find? name =
      if name ∈ vars then none else s.bindings.find? name :=
  NameMap.find?_foldl_erase vars s.bindings name

/-- Substitutions that bind and fill in the same are equal. -/
@[ext] theorem ext {s s' : Substitution}
    (bound : ∀ name, s.bindings.find? name = s'.bindings.find? name)
    (filled : ∀ word, s.slot word = s'.slot word) : s = s' := by
  obtain ⟨bindings, slot⟩ := s
  obtain ⟨bindings', slot'⟩ := s'
  obtain rfl : bindings = bindings' := NameMap.ext bound
  obtain rfl : slot = slot' := funext filled
  rfl

/-- Merging in what binds and fills nothing changes nothing. -/
theorem merge_empty (s : Substitution) : s.merge .empty true = s := by
  ext1 word
  · rw [find?_merge]
    rfl
  · rw [slot_merge]
    rfl

theorem empty_merge (s : Substitution) : empty.merge s true = s := by
  ext1 word
  · rw [find?_merge]
    exact Option.or_none
  · rw [slot_merge]
    exact Option.or_none

/-- Dropping variables that are not bound changes nothing. -/
theorem without_eq {vars : List Name} (unbound : ∀ name ∈ vars, s.bindings.find? name = none) :
    s.without vars = s := by
  ext1 name
  · rw [find?_without]
    by_cases dropped : name ∈ vars
    · rw [if_pos dropped, unbound name dropped]
    · rw [if_neg dropped]
  · rfl

/-! ### Applying is replacing -/

theorem applyMethodType_eq {type : MethodType} (some : (s.without type.typeParams).isEmpty = false) :
    s.applyMethodType type = type.replace (s.without type.typeParams).replacement := by
  simp only [applyMethodType, apply_eq some, applyParams_eq some]
  rfl

/-- The empty substitution binds nothing. -/
theorem unbound_of_isEmpty (nothing : s.isEmpty = true) (name : Name) :
    s.bindings.find? name = none := by
  simp only [isEmpty, Bool.and_eq_true] at nothing
  exact NameMap.find?_of_isEmpty nothing.1.1.1 name

/-- A substitution that binds and fills nothing replaces nothing. -/
theorem replacement_of_isEmpty (none : s.isEmpty = true) : s.replacement = .identity := by
  have vars : s.replacement.var = Ty.var := funext fun name => by
    show (s.bindings.find? name).getD (.var name) = _
    rw [unbound_of_isEmpty none]
    rfl
  simp only [isEmpty, Bool.and_eq_true, Option.isNone_iff_eq_none] at none
  obtain ⟨⟨⟨_, ofInstance⟩, ofClass⟩, ofSelf⟩ := none
  have words : s.replacement.placeholder = fun word => ⟨.placeholder word⟩ := funext fun word => by
    show (s.slot word).getD ⟨.placeholder word⟩ = _
    cases word
    · rw [ofSelf]; rfl
    · rw [ofInstance]; rfl
    · rw [ofClass]; rfl
  show (⟨s.replacement.var, s.replacement.placeholder, id, fun _ => id⟩ : Replacement) = _
  rw [vars, words]
  rfl

/-- A type in normal form is replaced in, also by the substitution that leaves a type as it is. -/
theorem apply_of_normal (s : Substitution) (normal : t.IsNormal) :
    s.apply t = t.replace s.replacement := by
  cases empty : s.isEmpty with
  | false => exact apply_eq empty t
  | true =>
    rw [apply, if_pos empty, replacement_of_isEmpty empty]
    exact (Ty.normalize_eq_self normal).symm

theorem applyParams_of_normal (s : Substitution) {p : Params Ty} (normal : ∀ t ∈ p.toList, t.IsNormal) :
    s.applyParams p = p.map (Ty.replace s.replacement) := by
  have each : ∀ t ∈ p.toList, s.apply t = t.replace s.replacement := fun t isParam =>
    s.apply_of_normal (normal t isParam)
  rw [applyParams_eq_map, Params.map_congr each]

theorem applyMethodType_of_normal (s : Substitution) {type : MethodType} (normal : type.IsNormal) :
    s.applyMethodType type = type.replace (s.without type.typeParams).replacement := by
  simp only [applyMethodType, apply_of_normal _ normal.result, applyParams_of_normal _ normal.params]
  rfl

/-! ### Substitutions of types in normal form -/

theorem isNormal_empty : empty.IsNormal := ⟨nofun, nofun⟩

namespace IsNormal

theorem fill (normal : s.IsNormal) (word : Placeholder) (normal' : t.IsNormal) :
    (s.fill word t).IsNormal where
  bound := normal.bound
  filled word' u found := by
    change (if word' = word then some t else s.slot word') = some u at found
    by_cases same : word' = word
    · rw [if_pos same, Option.some.injEq] at found
      exact found ▸ normal'
    · rw [if_neg same] at found
      exact normal.filled word' u found

/-- The types for the placeholders, in an instance of a class with `n` type parameters. -/
theorem placeholders (normal : s.IsNormal) (name : TypeName) (n : Nat) (normal' : t.IsNormal) :
    (((s.fill .instanceType (.instanceOf name (List.replicate n .any))).fill .classType
      (.singletonOf name)).fill .selfType t).IsNormal :=
  ((normal.fill _ (Ty.isNormal_applied (Ty.isNormal_replicate_any n))).fill _
    (Ty.isNormal_of_children (t := .singletonOf name) trivial rfl)).fill _ normal'

theorem bind (normal : s.IsNormal) (var : Name) (normal' : t.IsNormal) :
    (s.bind var t).IsNormal where
  filled := normal.filled
  bound name u found := by
    rw [Substitution.bind, NameMap.find?_insert] at found
    by_cases same : name = var
    · rw [if_pos same, Option.some.injEq] at found
      exact found ▸ normal'
    · rw [if_neg same] at found
      exact normal.bound name u found

theorem merge (normal : s.IsNormal) (normal' : other.IsNormal) : (s.merge other true).IsNormal where
  bound name u found := by
    rw [find?_merge, Option.or_eq_some_iff] at found
    rcases found with theirs | ⟨_, mine⟩
    · exact normal'.bound name u theirs
    · exact normal.bound name u mine
  filled word u found := by
    rw [slot_merge, Option.or_eq_some_iff] at found
    rcases found with theirs | ⟨_, mine⟩
    · exact normal'.filled word u theirs
    · exact normal.filled word u mine

theorem without (normal : s.IsNormal) (vars : List Name) : (s.without vars).IsNormal where
  filled := normal.filled
  bound name u found := by
    rw [find?_without] at found
    by_cases dropped : name ∈ vars
    · rw [if_pos dropped] at found
      cases found
    · rw [if_neg dropped] at found
      exact normal.bound name u found

theorem replacement (normal : s.IsNormal) : s.replacement.IsNormal where
  var name := by
    show ((s.bindings.find? name).getD (.var name)).IsNormal
    cases found : s.bindings.find? name with
    | none => exact Replacement.isNormal_identity.var name
    | some t => exact normal.bound name t found
  placeholder word := by
    show ((s.slot word).getD ⟨.placeholder word⟩).IsNormal
    cases found : s.slot word with
    | none => exact Replacement.isNormal_identity.placeholder word
    | some t => exact normal.filled word t found

/-! ### What a substitution is applied to -/

theorem apply (normal : s.IsNormal) (normal' : t.IsNormal) : (s.apply t).IsNormal := by
  unfold Substitution.apply
  split
  · exact normal'
  · exact Ty.isNormal_replace normal.replacement t

/-- Replacing in parameters gives types in normal form. -/
theorem map_replacement (normal : s.IsNormal) (p : Params Ty) :
    ∀ t ∈ (p.map (Ty.replace s.replacement)).toList, t.IsNormal := by
  intro t member
  rw [Params.toList_map] at member
  obtain ⟨u, _, rfl⟩ := List.mem_map.1 member
  exact Ty.isNormal_replace normal.replacement u

theorem applyParams (normal : s.IsNormal) {p : Params Ty} (normal' : ∀ t ∈ p.toList, t.IsNormal) :
    ∀ t ∈ (s.applyParams p).toList, t.IsNormal := by
  unfold Substitution.applyParams
  split
  · exact normal'
  · exact normal.map_replacement p

theorem applyMethodType (normal : s.IsNormal) {type : MethodType} (normal' : type.IsNormal) :
    (s.applyMethodType type).IsNormal := by
  have rest : (s.without type.typeParams).IsNormal := normal.without type.typeParams
  refine ⟨rest.applyParams normal'.params, ?_, ?_, rest.apply normal'.result⟩
  · intro block isBlock
    obtain ⟨declared, _, rfl⟩ := Option.map_eq_some_iff.1 isBlock
    exact rest.map_replacement declared.params
  · intro block isBlock
    obtain ⟨declared, _, rfl⟩ := Option.map_eq_some_iff.1 isBlock
    exact Ty.isNormal_replace rest.replacement declared.result

end IsNormal

end Substitution

end SignatureAlgebra
