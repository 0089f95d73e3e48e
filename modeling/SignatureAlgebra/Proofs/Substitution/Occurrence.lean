/-
**Substituting depends only on what occurs.**

The variables of a type are read off it while replacing builds it again, so the two go through a type
separately. They cover the same places: on types in normal form two substitutions do the same as soon as
they do the same to the variables and placeholders that occur, and nothing is in the result that neither
was there before nor was put in place of something that occurs. A method type's own type parameters do not
count as occurring.

* `Substitution.AgreesOn` — two substitutions put the same in place of what occurs.
* `Substitution.Misses` — nothing that occurs is bound or filled in.
* `Substitution.Brings` — how a variable comes into the result.
* `Substitution.brings_of_mem_freeVars_apply` — there is no other way, for any type.
* `Substitution.depends_on_occurring` — the statement.
-/
import SignatureAlgebra.Proofs.Substitution.Normal
import SignatureAlgebra.Proofs.Ty.Composition
import SignatureAlgebra.Proofs.Ty.Vocabulary

namespace SignatureAlgebra

namespace Substitution

variable {s s' : Substitution} {own : List Name} {types : List Ty} {t : Ty}

/-! ### Agreeing on what occurs -/

/-- **Two substitutions put the same in place of what occurs in some types**: in place of each variable
other than `own`, where one that is not bound stands for itself, and of each placeholder. -/
structure AgreesOn (own : List Name) (types : List Ty) (s s' : Substitution) : Prop where
  var : ∀ t ∈ types, ∀ name ∈ t.freeVars, name ∉ own →
    (s.bindings.find? name).getD (.var name) = (s'.bindings.find? name).getD (.var name)
  placeholder : ∀ t ∈ types, ∀ word, ⟨.placeholder word⟩ ∈ t.subterms →
    (s.slot word).getD ⟨.placeholder word⟩ = (s'.slot word).getD ⟨.placeholder word⟩

/-- **A substitution binds and fills nothing that occurs in some types**, apart from `own`. -/
structure Misses (own : List Name) (types : List Ty) (s : Substitution) : Prop where
  unbound : ∀ t ∈ types, ∀ name ∈ t.freeVars, name ∉ own → s.bindings.find? name = none
  unfilled : ∀ t ∈ types, ∀ word, ⟨.placeholder word⟩ ∈ t.subterms → s.slot word = none

/-- A substitution that misses what occurs agrees with the one that binds and fills nothing. -/
theorem Misses.agreesOn_empty (misses : s.Misses own types) : s.AgreesOn own types .empty where
  var t isType name occurs free := by
    rw [misses.unbound t isType name occurs free]
    rfl
  placeholder t isType word occurs := by
    rw [misses.unfilled t isType word occurs]
    rfl

/-- What is put in place of a variable when bindings are dropped. -/
theorem var_without (s : Substitution) (own : List Name) (name : Name) :
    (s.without own).replacement.var name =
      if name ∈ own then .var name else (s.bindings.find? name).getD (.var name) := by
  show ((s.without own).bindings.find? name).getD (.var name) = _
  rw [find?_without]
  split <;> rfl

theorem AgreesOn.replace_eq (agrees : s.AgreesOn own types s') (isType : t ∈ types) :
    t.replace (s.without own).replacement = t.replace (s'.without own).replacement := by
  refine Ty.replace_congr (fun name occurs => ?_) (agrees.placeholder t isType) rfl rfl
  rw [var_without, var_without]
  by_cases free : name ∈ own
  · rw [if_pos free, if_pos free]
  · rw [if_neg free, if_neg free]
    exact agrees.var t isType name (Ty.mem_freeVars.2 occurs) free

theorem Misses.replace_eq_self (misses : s.Misses own types) (isType : t ∈ types) (normal : t.IsNormal) :
    t.replace (s.without own).replacement = t := by
  have nothing : (empty.without own).isEmpty = true := by
    rw [without_eq fun _ _ => rfl]
    rfl
  rw [misses.agreesOn_empty.replace_eq isType, replacement_of_isEmpty nothing]
  exact Ty.normalize_eq_self normal

/-! ### What comes into the result -/

/-- **How a variable comes into a type that is substituted in**: it was there and is not bound, or it is
in what a variable or a placeholder is replaced by that was there. -/
inductive Brings (s : Substitution) (t : Ty) (name : Name) : Prop where
  | kept (occurs : name ∈ t.freeVars) (unbound : s.bindings.find? name = none)
  | bound (var : Name) (occurs : var ∈ t.freeVars) (u : Ty) (isBound : s.bindings.find? var = some u)
    (within : name ∈ u.freeVars)
  | filled (word : Placeholder) (occurs : ⟨.placeholder word⟩ ∈ t.subterms) (u : Ty)
    (isFilled : s.slot word = some u) (within : name ∈ u.freeVars)

/-- What occurs in a type is carried to what comes into the result. -/
theorem carries_brings (s : Substitution) (t : Ty) :
    s.replacement.Carries (.occurringIn [t]) (.ofVars (s.Brings t)) where
  var name occurs := by
    obtain ⟨_, isType, occurs⟩ := occurs
    obtain rfl := List.mem_singleton.1 isType
    show ((s.bindings.find? name).getD (.var name)).IsWithin _
    cases found : s.bindings.find? name with
    | none => exact Ty.isWithin_of_children (t := .var name) (.kept occurs found) rfl
    | some u => exact Ty.isWithin_ofVars_iff.2 fun name' within => .bound name occurs u found within
  placeholder word occurs := by
    obtain ⟨_, isType, occurs⟩ := occurs
    obtain rfl := List.mem_singleton.1 isType
    show ((s.slot word).getD ⟨.placeholder word⟩).IsWithin _
    cases found : s.slot word with
    | none => exact Ty.isWithin_of_children (t := ⟨.placeholder word⟩) trivial rfl
    | some u => exact Ty.isWithin_ofVars_iff.2 fun name' within => .filled word occurs u found within
  singleton _ _ := trivial
  applied _ _ _ _ := trivial

/-- **A substitution invents no variables**, in whatever type. -/
theorem brings_of_mem_freeVars_apply (s : Substitution) {t : Ty} {name : Name}
    (occurs : name ∈ (s.apply t).freeVars) : s.Brings t name := by
  cases empty : s.isEmpty with
  | true =>
    rw [apply, if_pos empty] at occurs
    exact .kept occurs (unbound_of_isEmpty empty name)
  | false =>
    rw [apply_eq empty] at occurs
    have within : t.IsWithin (.occurringIn [t]) := Ty.isWithin_occurringIn List.mem_cons_self
    exact Ty.isWithin_ofVars_iff.1 (Ty.isWithin_replace (s.carries_brings t) within) name occurs

/-! ### The statement -/

/-- **Substituting depends only on what occurs, and invents no variables.** On a type, on parameters and on
a method type in normal form, two substitutions that put the same in place of what occurs give the same;
one that binds and fills nothing that occurs gives back what it is applied to; and the substitution that is
empty, which gives back what it is applied to without a look, does what replacing everywhere does. In every
type that a substitution is applied to, a variable was there and is not bound, or comes with what a
variable or placeholder that was there is replaced by. -/
theorem depends_on_occurring (s : Substitution) :
    (∀ t : Ty, t.IsNormal →
      (∀ s', s.AgreesOn [] [t] s' → s.apply t = s'.apply t) ∧
      (s.Misses [] [t] → s.apply t = t) ∧
      s.apply t = t.replace s.replacement) ∧
    (∀ p : Params Ty, (∀ t ∈ p.toList, t.IsNormal) →
      (∀ s', s.AgreesOn [] p.toList s' → s.applyParams p = s'.applyParams p) ∧
      (s.Misses [] p.toList → s.applyParams p = p) ∧
      s.applyParams p = p.map (Ty.replace s.replacement)) ∧
    (∀ type : MethodType, type.IsNormal →
      (∀ s', s.AgreesOn type.typeParams type.types s' → s.applyMethodType type = s'.applyMethodType type) ∧
      (s.Misses type.typeParams type.types → s.applyMethodType type = type) ∧
      s.applyMethodType type = type.replace (s.without type.typeParams).replacement) ∧
    ∀ (t : Ty) (name : Name), name ∈ (s.apply t).freeVars → s.Brings t name := by
  refine ⟨fun t normal => ⟨fun s' agrees => ?_, fun misses => ?_, s.apply_of_normal normal⟩,
    fun p normal => ⟨fun s' agrees => ?_, fun misses => ?_, s.applyParams_of_normal normal⟩,
    fun type normal => ⟨fun s' agrees => ?_, fun misses => ?_, s.applyMethodType_of_normal normal⟩,
    fun t name occurs => s.brings_of_mem_freeVars_apply occurs⟩
  · rw [s.apply_of_normal normal, s'.apply_of_normal normal]
    exact agrees.replace_eq List.mem_cons_self
  · rw [s.apply_of_normal normal]
    exact misses.replace_eq_self List.mem_cons_self normal
  · rw [s.applyParams_of_normal normal, s'.applyParams_of_normal normal]
    exact Params.map_congr fun t isParam => agrees.replace_eq isParam
  · rw [s.applyParams_of_normal normal]
    have same : p.map (Ty.replace s.replacement) = p.map id :=
      Params.map_congr fun t isParam => misses.replace_eq_self isParam (normal t isParam)
    rw [same, Params.map_id]
  · rw [s.applyMethodType_of_normal normal, s'.applyMethodType_of_normal normal]
    exact MethodType.replace_congr fun t isType => agrees.replace_eq isType
  · rw [s.applyMethodType_of_normal normal]
    exact MethodType.replace_eq_self fun t isType =>
      misses.replace_eq_self isType (MethodType.isNormal_iff.1 normal t isType)

/-- The union `A | nil` and the overload `[C] (C) -> A`, where both substitutions put `B` in place of `A` and
only one of them binds `C`, and only the other one fills `self` in. The one that does not leaves the parameters
`(B, self)` as they are. -/
theorem depends_on_occurring_pair :
    let s := (empty.bind ⟨0⟩ (.var ⟨1⟩)).bind ⟨2⟩ .nil
    let s' := (empty.bind ⟨0⟩ (.var ⟨1⟩)).fill .selfType .nil
    let t : Ty := ⟨.compound .union [.var ⟨0⟩, .nil]⟩
    let p : Params Ty := .positional [.var ⟨1⟩, .selfType]
    let type : MethodType := ⟨[⟨2⟩], .positional [.var ⟨2⟩], none, .var ⟨0⟩⟩
    (t.IsNormal ∧ s.AgreesOn [] [t] s' ∧ s.apply t = s'.apply t) ∧
      (type.IsNormal ∧ s.AgreesOn [⟨2⟩] type.types s' ∧ s.applyMethodType type = s'.applyMethodType type) ∧
      ((∀ u ∈ p.toList, u.IsNormal) ∧ s.Misses [] p.toList ∧ s.applyParams p = p) ∧
      ⟨1⟩ ∈ (s.apply t).freeVars ∧ s.Brings t ⟨1⟩ := by
  intro s s' t p type
  have normal : t.IsNormal := by decide
  have normal' : type.IsNormal := MethodType.isNormal_iff.2 (by decide)
  have agrees : s.AgreesOn [] [t] s' := ⟨by decide, fun u isType word => by
    rcases List.mem_singleton.1 isType with rfl
    cases word <;> decide⟩
  have agrees' : s.AgreesOn [⟨2⟩] type.types s' := ⟨by decide, fun u isType word => by
    revert u
    cases word <;> decide⟩
  have misses : s.Misses [] p.toList := ⟨by decide, fun u _ word _ => rfl⟩
  have brought : ⟨1⟩ ∈ (s.apply t).freeVars := by decide
  obtain ⟨ofType, ofParams, ofMethod, ofVars⟩ := depends_on_occurring s
  exact ⟨⟨normal, agrees, (ofType t normal).1 s' agrees⟩,
    ⟨normal', agrees', (ofMethod type normal').1 s' agrees'⟩,
    ⟨by decide, misses, (ofParams p (by decide)).2.1 misses⟩,
    brought, ofVars t ⟨1⟩ brought⟩

end Substitution

end SignatureAlgebra
