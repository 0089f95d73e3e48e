/-
**Substituting in method types and the names of their type parameters.**

A method type's own type parameters are not replaced, but nothing keeps apart from them what is put in
place of the other names: a variable that is called like a type parameter is captured where it comes in.
So what the type parameters are called does not matter as long as none of them is free in what the
substitution puts in place of something that occurs; where it puts in nothing but normal forms, it matters
exactly if one of them is free in what becomes of the method type with other names.

* `MethodType.renameOwn` — a method type with other names for its own type parameters.
* `Substitution.RenamesOwn` — the other names are different, and new to method type and substitution.
* `Substitution.KeepsClear` — no type parameter is free in what replaces something that occurs.
* `Substitution.applyMethodType_renameOwn` — the statement; `applyMethodType_captures`, a captured name.
-/
import SignatureAlgebra.Proofs.Substitution.Occurrence
import SignatureAlgebra.Proofs.Ty.Relabelling

namespace SignatureAlgebra

/-- Other names for the names of a list. -/
def Name.renamedIn (own : List Name) (f : Name → Name) (name : Name) : Name :=
  if name ∈ own then f name else name

theorem Name.renamedIn_of_mem {own : List Name} {f : Name → Name} {name : Name} (isOwn : name ∈ own) :
    name.renamedIn own f = f name := if_pos isOwn

theorem Name.renamedIn_of_not_mem {own : List Name} {f : Name → Name} {name : Name} (free : name ∉ own) :
    name.renamedIn own f = name := if_neg free

namespace MethodType

/-- Whether a name is one of a method type's type parameters or occurs in one of its types. -/
def Mentions (type : MethodType) (name : Name) : Prop :=
  name ∈ type.typeParams ∨ ∃ t ∈ type.types, name ∈ t.freeVars

instance (type : MethodType) (name : Name) : Decidable (type.Mentions name) :=
  inferInstanceAs (Decidable (_ ∨ _))

/-- Gives the variables of a method type, and its type parameters, other names. -/
def relabel (g : Name → Name) (type : MethodType) : MethodType :=
  { type.map (Ty.relabel g) with typeParams := type.typeParams.map g }

/-- **Gives a method type's own type parameters other names**, wherever they occur in it. -/
def renameOwn (f : Name → Name) (type : MethodType) : MethodType :=
  type.relabel (Name.renamedIn type.typeParams f)

theorem types_relabel (g : Name → Name) (type : MethodType) :
    (type.relabel g).types = type.types.map (Ty.relabel g) := types_map _ type

theorem replace_relabel {g : Name → Name} {type : MethodType} {r r' : Replacement}
    (each : ∀ t ∈ type.types, (t.relabel g).replace r' = (t.replace r).relabel g) :
    (type.relabel g).replace r' = (type.replace r).relabel g := by
  have same : (type.map (Ty.relabel g)).map (Ty.replace r') =
      (type.map (Ty.replace r)).map (Ty.relabel g) := by
    rw [map_map, map_map]
    exact map_congr each
  exact congrArg (fun changed : MethodType => { changed with typeParams := type.typeParams.map g }) same

end MethodType

namespace Substitution

variable {s : Substitution} {type : MethodType} {f : Name → Name}

/-- Whether a name is bound by a substitution or occurs in a type that it binds or fills in. -/
def Mentions (s : Substitution) (name : Name) : Prop :=
  (∃ t, s.bindings.find? name = some t) ∨
    (∃ var t, s.bindings.find? var = some t ∧ name ∈ t.freeVars) ∨
    ∃ word t, s.slot word = some t ∧ name ∈ t.freeVars

/-- **Other names for a method type's own type parameters**: different ones for different parameters, and
none that occurs in the method type or in the substitution. -/
structure RenamesOwn (f : Name → Name) (type : MethodType) (s : Substitution) : Prop where
  injective : Set.InjOn f {q | q ∈ type.typeParams}
  new : ∀ q ∈ type.typeParams, ¬ type.Mentions (f q) ∧ ¬ s.Mentions (f q)

/-- **None of a method type's own type parameters is free in what a substitution puts in place** of the
other variables, and of the placeholders, that occur in the method type. -/
structure KeepsClear (s : Substitution) (type : MethodType) : Prop where
  bound : ∀ t ∈ type.types, ∀ name ∈ t.freeVars, name ∉ type.typeParams →
    ∀ u, s.bindings.find? name = some u → ∀ q ∈ type.typeParams, q ∉ u.freeVars
  filled : ∀ t ∈ type.types, ∀ word, ⟨.placeholder word⟩ ∈ t.subterms →
    ∀ u, s.slot word = some u → ∀ q ∈ type.typeParams, q ∉ u.freeVars

/-- The names that are none of the other names. -/
def untaken (f : Name → Name) (type : MethodType) : Set Name := {name | ∀ q ∈ type.typeParams, f q ≠ name}

namespace RenamesOwn

theorem injOn (renames : RenamesOwn f type s) :
    Set.InjOn (Name.renamedIn type.typeParams f) (untaken f type) := by
  intro name free name' free' same
  simp only [Name.renamedIn] at same
  by_cases isOwn : name ∈ type.typeParams <;> by_cases isOwn' : name' ∈ type.typeParams
  · rw [if_pos isOwn, if_pos isOwn'] at same
    exact renames.injective isOwn isOwn' same
  · rw [if_pos isOwn, if_neg isOwn'] at same
    exact absurd same (free' name isOwn)
  · rw [if_neg isOwn, if_pos isOwn'] at same
    exact absurd same.symm (free name' isOwn')
  · rwa [if_neg isOwn, if_neg isOwn'] at same

theorem untaken_of_mentions (renames : RenamesOwn f type s) {name : Name}
    (mentioned : type.Mentions name ∨ s.Mentions name) : name ∈ untaken f type := by
  rintro q isOwn rfl
  exact mentioned.elim (renames.new q isOwn).1 (renames.new q isOwn).2

/-- The other names are not bound. -/
theorem unbound (renames : RenamesOwn f type s) {q : Name} (isOwn : q ∈ type.typeParams) :
    s.bindings.find? (f q) = none := by
  cases found : s.bindings.find? (f q) with
  | none => rfl
  | some t => exact absurd (Or.inl ⟨t, found⟩) (renames.new q isOwn).2

theorem without_eq (renames : RenamesOwn f type s) :
    s.without (type.renameOwn f).typeParams = s := by
  refine Substitution.without_eq fun name isNew => ?_
  obtain ⟨q, isOwn, rfl⟩ := List.mem_map.1 isNew
  rw [Name.renamedIn_of_mem isOwn]
  exact renames.unbound isOwn

/-- Nothing that is put in place of what occurs is called by one of the other names. -/
theorem carries (renames : RenamesOwn f type s) :
    (s.without type.typeParams).replacement.Carries (.occurringIn type.types)
      (.ofVars fun name => name ∈ untaken f type) where
  var name occurring := by
    show (((s.without type.typeParams).bindings.find? name).getD (.var name)).IsWithin _
    cases found : (s.without type.typeParams).bindings.find? name with
    | none =>
      have mentioned : name ∈ untaken f type := renames.untaken_of_mentions (Or.inl (Or.inr occurring))
      exact Ty.isWithin_of_children (t := .var name) mentioned rfl
    | some u =>
      have bound : s.bindings.find? name = some u := by
        rw [find?_without] at found
        by_cases isOwn : name ∈ type.typeParams
        · rw [if_pos isOwn] at found
          cases found
        · rwa [if_neg isOwn] at found
      exact Ty.isWithin_ofVars_iff.2 fun v within =>
        renames.untaken_of_mentions (Or.inr (Or.inr (Or.inl ⟨name, u, bound, within⟩)))
  placeholder word occurring := by
    show ((s.slot word).getD ⟨.placeholder word⟩).IsWithin _
    cases found : s.slot word with
    | none => exact Ty.isWithin_of_children (t := ⟨.placeholder word⟩) trivial rfl
    | some u =>
      exact Ty.isWithin_ofVars_iff.2 fun v within =>
        renames.untaken_of_mentions (Or.inr (Or.inr (Or.inr ⟨word, u, found, within⟩)))
  singleton _ _ := trivial
  applied _ _ _ _ := trivial

end RenamesOwn

/-- **Replacing commutes with other names for the type parameters**, where these are kept clear of. -/
theorem KeepsClear.relabels (clear : s.KeepsClear type) (renames : RenamesOwn f type s) :
    (s.without type.typeParams).replacement.Relabels (.occurringIn type.types)
      (Name.renamedIn type.typeParams f) (untaken f type) s.replacement where
  var name occurring := by
    obtain ⟨t, isType, occurs⟩ := occurring
    rw [var_without]
    by_cases isOwn : name ∈ type.typeParams
    · rw [Name.renamedIn_of_mem isOwn, if_pos isOwn]
      show (s.bindings.find? (f name)).getD (.var (f name)) = .var (Name.renamedIn _ f name)
      rw [renames.unbound isOwn, Name.renamedIn_of_mem isOwn]
      rfl
    · rw [Name.renamedIn_of_not_mem isOwn, if_neg isOwn]
      show (s.bindings.find? name).getD (.var name) = _
      cases found : s.bindings.find? name with
      | none => exact congrArg Ty.var (Name.renamedIn_of_not_mem isOwn).symm
      | some u =>
        refine (u.relabel_id.symm.trans (Ty.relabel_congr fun v within => ?_))
        exact (Name.renamedIn_of_not_mem fun isOwn' =>
          clear.bound t isType name occurs isOwn u found v isOwn' within).symm
  placeholder word occurring := by
    obtain ⟨t, isType, occurs⟩ := occurring
    show (s.slot word).getD ⟨.placeholder word⟩ = ((s.slot word).getD ⟨.placeholder word⟩).relabel _
    cases found : s.slot word with
    | none => rfl
    | some u =>
      refine (u.relabel_id.symm.trans (Ty.relabel_congr fun v within => ?_))
      exact (Name.renamedIn_of_not_mem fun isOwn' =>
        clear.filled t isType word occurs u found v isOwn' within).symm
  singleton := rfl
  head := rfl
  carries := renames.carries

/-- A substitution that is empty apart from a method type's own type parameters only builds its block
again. -/
theorem applyMethodType_of_isEmpty (none : (s.without type.typeParams).isEmpty = true) :
    s.applyMethodType type =
      { type with block := (type.replace (s.without type.typeParams).replacement).block } := by
  simp only [applyMethodType, apply, applyParams, none, if_true]
  rfl

/-- What a method type with other names for its type parameters becomes. -/
theorem RenamesOwn.applyMethodType_eq (renames : RenamesOwn f type s) (some : s.isEmpty = false) :
    s.applyMethodType (type.renameOwn f) = (type.renameOwn f).replace s.replacement := by
  have same : s.without (type.renameOwn f).typeParams = s := renames.without_eq
  rw [Substitution.applyMethodType_eq (by rwa [same]), same]

/-- **Other names for the type parameters lead to the same**, up to these names, where the substitution keeps
clear of them. -/
theorem KeepsClear.applyMethodType (clear : s.KeepsClear type) (renames : RenamesOwn f type s)
    (built : type.IsNormal ∨ ((s.without type.typeParams).isEmpty = true → s.isEmpty = true)) :
    s.applyMethodType (type.renameOwn f) = (s.applyMethodType type).renameOwn f := by
  have whole : (type.renameOwn f).replace s.replacement =
      (type.replace (s.without type.typeParams).replacement).renameOwn f :=
    MethodType.replace_relabel fun t isType =>
      Ty.replace_relabel renames.injOn (clear.relabels renames) (Ty.isWithin_occurringIn isType)
  cases empty : s.isEmpty with
  | false =>
    have replaced : s.applyMethodType type = type.replace (s.without type.typeParams).replacement := by
      rcases built with normal | left
      · exact s.applyMethodType_of_normal normal
      · refine applyMethodType_eq ?_
        cases rest : (s.without type.typeParams).isEmpty with
        | false => rfl
        | true => exact (left rest).symm.trans empty
    rw [renames.applyMethodType_eq empty, replaced, whole]
  | true =>
    have rest : (s.without type.typeParams).isEmpty = true := by
      rwa [Substitution.without_eq fun name _ => unbound_of_isEmpty empty name]
    have same : s.without (type.renameOwn f).typeParams = s := renames.without_eq
    rw [applyMethodType_of_isEmpty (by rwa [same]), same, whole, applyMethodType_of_isEmpty rest]
    rfl

/-- A method type with other names for its type parameters is told by these names. -/
theorem not_mem_freeVars_renameOwn (renames : RenamesOwn f type s) (other : MethodType)
    (sameParams : other.typeParams = type.typeParams) {t : Ty} (isType : t ∈ (other.renameOwn f).types)
    {q : Name} (isOwn : q ∈ type.typeParams) : q ∉ t.freeVars := by
  intro occurs
  rw [MethodType.renameOwn, MethodType.types_relabel, sameParams] at isType
  obtain ⟨u, _, rfl⟩ := List.mem_map.1 isType
  rw [Ty.freeVars_relabel] at occurs
  obtain ⟨v, _, isImage⟩ := List.mem_map.1 occurs
  by_cases isOwn' : v ∈ type.typeParams
  · rw [Name.renamedIn_of_mem isOwn'] at isImage
    exact (renames.new v isOwn').1 (Or.inl (isImage ▸ isOwn))
  · rw [Name.renamedIn_of_not_mem isOwn'] at isImage
    exact isOwn' (isImage ▸ isOwn)

/-! ### Normal forms -/

/-- The names that the other names stand for. -/
noncomputable def formerName (f : Name → Name) (type : MethodType) (name : Name) : Name :=
  Name.renamedIn (type.typeParams.map f) (Function.invFunOn f {q | q ∈ type.typeParams}) name

theorem RenamesOwn.formerName_apply (renames : RenamesOwn f type s) {q : Name} (isOwn : q ∈ type.typeParams) :
    formerName f type (f q) = q := by
  rw [formerName, Name.renamedIn_of_mem (List.mem_map_of_mem isOwn)]
  exact renames.injective.leftInvOn_invFunOn isOwn

theorem formerName_of_untaken {name : Name} (free : name ∈ untaken f type) : formerName f type name = name := by
  refine Name.renamedIn_of_not_mem fun isNew => ?_
  obtain ⟨q, isOwn, same⟩ := List.mem_map.1 isNew
  exact free q isOwn same

/-- A type without the other names stays as it is when the former names are put back. -/
theorem respell_formerName {t : Ty} (normal : t.IsNormal) (known : ∀ name ∈ t.freeVars, name ∈ untaken f type) :
    t.respell (formerName f type) = t :=
  Ty.respell_eq_self normal fun name occurs => formerName_of_untaken (known name occurs)

theorem RenamesOwn.isWithin (renames : RenamesOwn f type s) {t : Ty} (isType : t ∈ type.types)
    (isNormal : t.IsNormal) : t.IsWithin (.over (untaken f type)) :=
  Ty.isWithin_over_iff.2 ⟨isNormal, fun _ occurs =>
    renames.untaken_of_mentions (Or.inl (Or.inr ⟨t, isType, occurs⟩))⟩

theorem RenamesOwn.isNormal_renameOwn (renames : RenamesOwn f type s) (isNormal : type.IsNormal) :
    (type.renameOwn f).IsNormal := by
  rw [MethodType.isNormal_iff, MethodType.renameOwn, MethodType.types_relabel]
  intro u isRenamed
  obtain ⟨t, isType, rfl⟩ := List.mem_map.1 isRenamed
  rw [Ty.relabel_eq_respell renames.injOn
    (renames.isWithin isType (MethodType.isNormal_iff.1 isNormal t isType))]
  exact Ty.isNormal_replace (Replacement.isNormal_ofVars _) t

theorem RenamesOwn.applyMethodType_of_normal (renames : RenamesOwn f type s) (isNormal : type.IsNormal) :
    s.applyMethodType (type.renameOwn f) = (type.renameOwn f).replace s.replacement := by
  rw [Substitution.applyMethodType_of_normal s (renames.isNormal_renameOwn isNormal), renames.without_eq]

/-- **What becomes of a type** is what becomes of it with other names, with the former names put back. -/
theorem RenamesOwn.respell_replace (renames : RenamesOwn f type s) (normal : s.IsNormal) {t : Ty}
    (isType : t ∈ type.types) (isNormal : t.IsNormal) :
    ((t.relabel (Name.renamedIn type.typeParams f)).replace s.replacement).respell (formerName f type) =
      t.replace (s.without type.typeParams).replacement := by
  have known : t.IsWithin (.over (untaken f type)) := renames.isWithin isType isNormal
  have twice : ((Replacement.ofVars (Name.renamedIn type.typeParams f)).andThen s.replacement).IsNormal :=
    ⟨fun _ => Ty.isNormal_replace normal.replacement _, fun _ => Ty.isNormal_replace normal.replacement _⟩
  rw [Ty.relabel_eq_respell renames.injOn known, Ty.respell, Ty.respell,
    Ty.replace_replace (Replacement.isNormal_ofVars _) (Replacement.isSolid_ofVars _) normal.replacement
      isNormal,
    Ty.replace_replace_of_solid twice (Replacement.isNormal_ofVars _) (Replacement.isSolid_ofVars _) isNormal]
  refine Ty.replace_congr (fun name occurs => ?_) (fun word occurs => ?_) rfl rfl
  · have occurs' : name ∈ t.freeVars := Ty.mem_freeVars.2 occurs
    rw [var_without]
    show ((s.bindings.find? (Name.renamedIn type.typeParams f name)).getD
      (.var (Name.renamedIn type.typeParams f name))).respell (formerName f type) = _
    by_cases isOwn : name ∈ type.typeParams
    · rw [Name.renamedIn_of_mem isOwn, renames.unbound isOwn, if_pos isOwn]
      exact congrArg Ty.var (renames.formerName_apply isOwn)
    · rw [Name.renamedIn_of_not_mem isOwn, if_neg isOwn]
      cases found : s.bindings.find? name with
      | none =>
        exact congrArg Ty.var (formerName_of_untaken
          (renames.untaken_of_mentions (Or.inl (Or.inr ⟨t, isType, occurs'⟩))))
      | some u =>
        exact respell_formerName (normal.bound name u found) fun v within =>
          renames.untaken_of_mentions (Or.inr (Or.inr (Or.inl ⟨name, u, found, within⟩)))
  · show ((s.slot word).getD ⟨.placeholder word⟩).respell (formerName f type) = _
    show _ = (s.slot word).getD ⟨.placeholder word⟩
    cases found : s.slot word with
    | none => rfl
    | some u =>
      exact respell_formerName (normal.filled word u found) fun v within =>
        renames.untaken_of_mentions (Or.inr (Or.inr (Or.inr ⟨word, u, found, within⟩)))

/-- **Other names lead to the same** where none of the type parameters is free in what they lead to. -/
theorem RenamesOwn.relabel_replace (renames : RenamesOwn f type s) (normal : s.IsNormal) {t : Ty}
    (isType : t ∈ type.types) (isNormal : t.IsNormal)
    (clear : ∀ q ∈ type.typeParams,
      q ∉ ((t.relabel (Name.renamedIn type.typeParams f)).replace s.replacement).freeVars) :
    (t.relabel (Name.renamedIn type.typeParams f)).replace s.replacement =
      (t.replace (s.without type.typeParams).replacement).relabel (Name.renamedIn type.typeParams f) := by
  have back := renames.respell_replace normal isType isNormal
  have built : ((t.relabel (Name.renamedIn type.typeParams f)).replace s.replacement).IsNormal :=
    Ty.isNormal_replace normal.replacement _
  have within : (t.replace (s.without type.typeParams).replacement).IsWithin (.over (untaken f type)) :=
    Ty.isWithin_over_iff.2 ⟨Ty.isNormal_replace (normal.without _).replacement t,
      Ty.isWithin_ofVars_iff.1 (Ty.isWithin_replace renames.carries (Ty.isWithin_occurringIn isType))⟩
  rw [Ty.relabel_eq_respell renames.injOn within, ← back, Ty.respell_respell built]
  refine (Ty.respell_eq_self built fun name occurs => ?_).symm
  by_cases isNew : ∃ q ∈ type.typeParams, f q = name
  · obtain ⟨q, isOwn, rfl⟩ := isNew
    rw [Function.comp_apply, renames.formerName_apply isOwn, Name.renamedIn_of_mem isOwn]
  · have free : name ∈ untaken f type := fun q isOwn same => isNew ⟨q, isOwn, same⟩
    rw [Function.comp_apply, formerName_of_untaken free, Name.renamedIn_of_not_mem fun isOwn =>
      clear name isOwn occurs]

/-! ### The statement -/

/-- **The names of a method type's own type parameters do not matter where they are kept clear of.** Let the
type parameters get other names, different ones and none that occurs in the method type or in the
substitution. If no type parameter is free in what the substitution puts in place of another variable or of
a placeholder that occurs in the method type, then applying it to the method type with the other names gives
the method type it gives otherwise, with the other names; only if the substitution is left with nothing when
the type parameters are taken from it, which leaves the method type as it is, that has to be in normal form.
Wherever the two are the same up to the other names, no type parameter is free in what the first one gives;
and if method type and substitution are in normal form, they are the same exactly then. -/
theorem applyMethodType_renameOwn (renames : RenamesOwn f type s) :
    (s.KeepsClear type →
      type.IsNormal ∨ ((s.without type.typeParams).isEmpty = true → s.isEmpty = true) →
      s.applyMethodType (type.renameOwn f) = (s.applyMethodType type).renameOwn f) ∧
    (s.applyMethodType (type.renameOwn f) = (s.applyMethodType type).renameOwn f →
      ∀ t ∈ (s.applyMethodType (type.renameOwn f)).types, ∀ q ∈ type.typeParams, q ∉ t.freeVars) ∧
    (type.IsNormal → s.IsNormal →
      (∀ t ∈ (s.applyMethodType (type.renameOwn f)).types, ∀ q ∈ type.typeParams, q ∉ t.freeVars) →
      s.applyMethodType (type.renameOwn f) = (s.applyMethodType type).renameOwn f) := by
  refine ⟨fun clear built => clear.applyMethodType renames built, fun same t isType q isOwn => ?_,
    fun isNormal normal clear => ?_⟩
  · rw [same] at isType
    exact not_mem_freeVars_renameOwn renames (s.applyMethodType type) rfl isType isOwn
  · rw [renames.applyMethodType_of_normal isNormal] at clear ⊢
    rw [s.applyMethodType_of_normal isNormal]
    refine MethodType.replace_relabel fun t isType => ?_
    refine renames.relabel_replace normal isType (MethodType.isNormal_iff.1 isNormal t isType) fun q isOwn => ?_
    refine clear _ ?_ q isOwn
    rw [MethodType.types_replace, MethodType.renameOwn, MethodType.types_relabel]
    exact List.mem_map_of_mem (List.mem_map_of_mem isType)

theorem find?_bind_empty (u : Name) (t : Ty) (name : Name) :
    (empty.bind u t).bindings.find? name = if name = u then some t else none :=
  NameMap.find?_insert _ _ _ _

/-- One other name for the only type parameter of a method type, under a substitution of one variable. -/
theorem renamesOwn_bind {u q new : Name} {t : Ty} (single : type.typeParams = [q])
    (unmentioned : ¬ type.Mentions new) (unbound : new ≠ u) (free : new ∉ t.freeVars) :
    RenamesOwn (fun _ => new) type (empty.bind u t) where
  injective := by
    intro p isOwn p' isOwn' _
    have only : ∀ name ∈ type.typeParams, name = q := fun name => by simp [single]
    exact (only p isOwn).trans (only p' isOwn').symm
  new := by
    refine fun _ _ => ⟨unmentioned, ?_⟩
    rintro (⟨v, found⟩ | ⟨name, v, found, occurs⟩ | ⟨word, v, found, _⟩)
    · rw [find?_bind_empty, if_neg unbound] at found
      cases found
    · rw [find?_bind_empty] at found
      split at found
      · exact free (Option.some.inj found ▸ occurs)
      · cases found
    · cases found

/-- In the overload `[T] (T) -> U` with `V` for `U`, the type parameter may as well be called `X`. -/
theorem applyMethodType_renameOwn_clear :
    let s := empty.bind ⟨1⟩ (.var ⟨3⟩)
    let type : MethodType := ⟨[⟨0⟩], .positional [.var ⟨0⟩], none, .var ⟨1⟩⟩
    RenamesOwn (fun _ => ⟨2⟩) type s ∧ s.KeepsClear type ∧ type.IsNormal ∧
      s.applyMethodType (type.renameOwn fun _ => ⟨2⟩) = (s.applyMethodType type).renameOwn fun _ => ⟨2⟩ := by
  intro s type
  have renames : RenamesOwn (fun _ => ⟨2⟩) type s := renamesOwn_bind rfl (by decide) (by decide) (by decide)
  have clear : s.KeepsClear type := by
    refine ⟨fun t _ name _ _ u found q isOwn => ?_, nofun⟩
    rw [find?_bind_empty] at found
    split at found
    · obtain rfl := Option.some.inj found
      revert q
      decide
    · cases found
  have normal : type.IsNormal := MethodType.isNormal_iff.2 (by decide)
  exact ⟨renames, clear, normal, (applyMethodType_renameOwn renames).1 clear (Or.inl normal)⟩

/-- **A captured variable**: in the overload `[T] (T) -> U` with `T` for `U` the result is the type parameter,
and with `X` for the type parameter it is not. -/
theorem applyMethodType_captures :
    let s := empty.bind ⟨1⟩ (.var ⟨0⟩)
    let type : MethodType := ⟨[⟨0⟩], .positional [.var ⟨0⟩], none, .var ⟨1⟩⟩
    type.typeParams.Nodup ∧ RenamesOwn (fun _ => ⟨2⟩) type s ∧
      s.applyMethodType type = ⟨[⟨0⟩], .positional [.var ⟨0⟩], none, .var ⟨0⟩⟩ ∧
      s.applyMethodType (type.renameOwn fun _ => ⟨2⟩) = ⟨[⟨2⟩], .positional [.var ⟨2⟩], none, .var ⟨0⟩⟩ ∧
      s.applyMethodType (type.renameOwn fun _ => ⟨2⟩) ≠ (s.applyMethodType type).renameOwn fun _ => ⟨2⟩ := by
  intro s type
  exact ⟨by decide, renamesOwn_bind rfl (by decide) (by decide) (by decide), by decide, by decide, by decide⟩

/-- Where the substitution binds nothing but the type parameter `T`, the union `T | T` stays as it is written;
with `X` for the type parameter it is built again. -/
example :
    let s := empty.bind ⟨0⟩ .nil
    let type : MethodType := ⟨[⟨0⟩], .empty, none, ⟨.compound .union [.var ⟨0⟩, .var ⟨0⟩]⟩⟩
    (s.applyMethodType type).renameOwn (fun _ => ⟨2⟩) =
        ⟨[⟨2⟩], .empty, none, ⟨.compound .union [.var ⟨2⟩, .var ⟨2⟩]⟩⟩ ∧
      s.applyMethodType (type.renameOwn fun _ => ⟨2⟩) = ⟨[⟨2⟩], .empty, none, .var ⟨2⟩⟩ := by decide

end Substitution

end SignatureAlgebra
