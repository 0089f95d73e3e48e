/-
**The types in a method type.**

A method type holds types in its parameters, in its block and in its result. What is said of all of them,
or done to each of them, is said and done once here.

* `MethodType.types` — the types in a method type; `MethodType.isNormal_iff` — all in normal form.
* `MethodType.map` — changes every type; `MethodType.map_congr`, `MethodType.map_map`.
* `MethodType.replace` — applies a replacement to every type; `MethodType.replace_congr`,
  `MethodType.replace_replace` and `MethodType.replace_eq_self` come down to the single types.
-/
import SignatureAlgebra.Proofs.Interface.Union
import SignatureAlgebra.Ty.Replacement

namespace SignatureAlgebra.MethodType

/-- The types in a method type: of its parameters, of its block, of its result. -/
def types (type : MethodType) : List Ty :=
  type.params.toList ++ (type.block.toList.flatMap fun block => block.params.toList ++ [block.result]) ++
    [type.result]

theorem mem_types {type : MethodType} {t : Ty} :
    t ∈ type.types ↔ t ∈ type.params.toList ∨
      (∃ block ∈ type.block, t ∈ block.params.toList ∨ t = block.result) ∨ t = type.result := by
  simp only [types, List.mem_append, List.mem_flatMap, List.mem_singleton, Option.mem_toList,
    Option.mem_def, or_assoc]

theorem isNormal_iff {type : MethodType} : type.IsNormal ↔ ∀ t ∈ type.types, t.IsNormal := by
  constructor
  · intro normal t isType
    rcases mem_types.1 isType with isParam | ⟨block, isBlock, isParam | rfl⟩ | rfl
    · exact normal.params t isParam
    · exact normal.blockParams block isBlock t isParam
    · exact normal.blockResult block isBlock
    · exact normal.result
  · intro normal
    refine ⟨fun t isParam => ?_, fun block isBlock t isParam => ?_, fun block isBlock => ?_, ?_⟩
    · exact normal t (mem_types.2 (Or.inl isParam))
    · exact normal t (mem_types.2 (Or.inr (Or.inl ⟨block, isBlock, Or.inl isParam⟩)))
    · exact normal _ (mem_types.2 (Or.inr (Or.inl ⟨block, isBlock, Or.inr rfl⟩)))
    · exact normal _ (mem_types.2 (Or.inr (Or.inr rfl)))

/-! ### Changing every type -/

/-- Changes every type in a method type. -/
def map (f : Ty → Ty) (type : MethodType) : MethodType where
  typeParams := type.typeParams
  params := type.params.map f
  block := type.block.map fun block => ⟨block.isOptional, block.params.map f, f block.result⟩
  result := f type.result

variable {f g : Ty → Ty}

theorem types_map (f : Ty → Ty) (type : MethodType) : (type.map f).types = type.types.map f := by
  obtain ⟨typeParams, params, block, result⟩ := type
  cases block <;> simp [types, map]

theorem map_map (f g : Ty → Ty) (type : MethodType) : (type.map f).map g = type.map (g ∘ f) := by
  obtain ⟨typeParams, params, block, result⟩ := type
  cases block <;> simp [map, Params.map_map]

theorem map_id (type : MethodType) : type.map id = type := by
  obtain ⟨typeParams, params, block, result⟩ := type
  cases block <;> simp [map]

/-- **What agrees on every type agrees on the method type.** -/
theorem map_congr {type : MethodType} (same : ∀ t ∈ type.types, f t = g t) :
    type.map f = type.map g := by
  have ofParams : type.params.map f = type.params.map g :=
    Params.map_congr fun t isParam => same t (mem_types.2 (Or.inl isParam))
  have ofBlock : (type.map f).block = (type.map g).block := by
    refine Option.map_congr fun block isBlock => ?_
    have inBlock : ∀ t, t ∈ block.params.toList ∨ t = block.result → f t = g t := fun t occurs =>
      same t (mem_types.2 (Or.inr (Or.inl ⟨block, isBlock, occurs⟩)))
    rw [Params.map_congr fun t isParam => inBlock t (Or.inl isParam), inBlock _ (Or.inr rfl)]
  have ofResult : f type.result = g type.result := same _ (mem_types.2 (Or.inr (Or.inr rfl)))
  simp only [map] at ofBlock ⊢
  rw [ofParams, ofBlock, ofResult]

/-! ### Replacing in every type -/

/-- Applies a replacement to every type of a method type. -/
def replace (r : Replacement) (type : MethodType) : MethodType where
  typeParams := type.typeParams
  params := type.params.map (Ty.replace r)
  block := type.block.map fun block =>
    ⟨block.isOptional, block.params.map (Ty.replace r), block.result.replace r⟩
  result := type.result.replace r

theorem replace_eq_map (r : Replacement) (type : MethodType) : type.replace r = type.map (Ty.replace r) :=
  rfl

theorem types_replace (r : Replacement) (type : MethodType) :
    (type.replace r).types = type.types.map (Ty.replace r) := types_map _ type

variable {r r' r'' : Replacement}

/-- Replacements that do the same to every type of a method type do the same to the method type. -/
theorem replace_congr {type : MethodType} (each : ∀ t ∈ type.types, t.replace r = t.replace r') :
    type.replace r = type.replace r' := map_congr each

/-- Replacements that come to one on every type of a method type come to one on the method type. -/
theorem replace_replace (type : MethodType)
    (each : ∀ t ∈ type.types, (t.replace r).replace r' = t.replace r'') :
    (type.replace r).replace r' = type.replace r'' := by
  rw [replace_eq_map, replace_eq_map, map_map]
  exact map_congr each

/-- A replacement that leaves every type of a method type as it is. -/
theorem replace_eq_self {type : MethodType} (same : ∀ t ∈ type.types, t.replace r = t) :
    type.replace r = type := (map_congr (g := id) same).trans type.map_id

end SignatureAlgebra.MethodType
