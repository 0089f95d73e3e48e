/-
**Type parameters of a method among those of its class and those of the receiver.**

Type parameters that are free in the type for `self` get new names; then the type parameters of the class
are replaced by the arguments of the receiver, also where the method has a type parameter of the same
name. Renaming looks at the type for `self` and replacing at the receiver, so the two keep out of each
other's way only under conditions, which are exact here.

* `Arena.methodType` — the method type that is declared.
* `Analysis.instantiate_eq_apply`, `instantiate_eq` — the overload, from the declared method type.
* `Analysis.interfaceFor_clear_iff` — when an argument keeps clear of the type parameters.
* `Analysis.interfaceFor_shadows_iff` — when a type parameter of the method hides one of the class.
-/
import SignatureAlgebra.Proofs.Analysis.History
import SignatureAlgebra.Proofs.Analysis.Overloads
import SignatureAlgebra.Proofs.MethodType.Types

namespace SignatureAlgebra

/-- The method type that a signature declares. -/
def Arena.methodType (arena : Arena) (signature : DeclaredMethod NodeId) : MethodType where
  typeParams := signature.typeParams
  params := (signature.function.params.map arena.toTy).toParams
  block := signature.block.map fun block =>
    ⟨!block.required, (block.function.params.map arena.toTy).toParams,
      arena.toTy block.function.result⟩
  result := arena.toTy signature.function.result

namespace Analysis

variable {a : Analysis}

/-! ### One overload -/

/-- What instantiating does to a session, step by step. -/
theorem instantiate_run (a : Analysis) (signature : DeclaredMethod NodeId) (selfType : Ty)
    (substitution : Substitution) (origin : Option Origin) (s : Session) :
    a.instantiate signature selfType (some substitution) origin s =
      let renamed := Session.renameTaken selfType.freeVars signature.typeParams .empty s
      let merged := renamed.1.2.merge substitution true
      let params := a.params signature.function.params renamed.2
      let result := a.toTy signature.function.result params.2
      let block : Option Block × Session :=
        match signature.block with
        | none => (none, result.2)
        | some block =>
          let params := a.params block.function.params result.2
          let result := a.toTy block.function.result params.2
          (some ⟨!block.required, merged.applyParams params.1, merged.apply result.1⟩, result.2)
      (⟨⟨renamed.1.1, merged.applyParams params.1, block.1, merged.apply result.1⟩, origin⟩,
        block.2) := by
  unfold instantiate
  cases signature.block <;> rfl

theorem typeParams_instantiate (a : Analysis) (signature : DeclaredMethod NodeId) (selfType : Ty)
    (substitution : Substitution) (origin : Option Origin) (s : Session) :
    (a.instantiate signature selfType (some substitution) origin s).1.type.typeParams =
      (Session.renameTaken selfType.freeVars signature.typeParams .empty s).1.1 := by
  rw [instantiate_run]

theorem leads_instantiate (a : Analysis) (signature : DeclaredMethod NodeId) (selfType : Ty)
    (substitution : Substitution) (origin : Option Origin) (s : Session) :
    (Session.renameTaken selfType.freeVars signature.typeParams .empty s).2.Leads a
      (a.instantiate signature selfType (some substitution) origin s).2 := by
  rw [instantiate_run]
  have types := leads_trans ((transparent_params a signature.function.params).leads _)
    ((transparent_toTy a signature.function.result).leads
      (a.params signature.function.params
        (Session.renameTaken selfType.freeVars signature.typeParams .empty s).2).2)
  cases signature.block with
  | none => exact types
  | some block =>
    refine leads_trans types (leads_trans ?_ ((transparent_toTy a _).leads _))
    exact (transparent_params a _).leads _

/-- **An overload is the declared method type with the substitution applied to every type**, whatever is
remembered, and with the new names of its type parameters. -/
theorem instantiate_eq_apply (acyclic : a.env.arena.Acyclic) {s : Session} (coherent : s.Coherent a)
    (signature : DeclaredMethod NodeId) {selfType : Ty} (substitution : Substitution)
    (origin : Option Origin) {renamed : (List Name × Substitution) × Session}
    (renames : Session.renameTaken selfType.freeVars signature.typeParams .empty s = renamed) :
    (a.instantiate signature selfType (some substitution) origin s).1 =
      ⟨{ (a.env.arena.methodType signature).map (renamed.1.2.merge substitution true).apply with
          typeParams := renamed.1.1 }, origin⟩ := by
  have start : renamed.2.Coherent a :=
    renames ▸ (((pervades_transparent a).renameTaken _ _ _).leads s).coherent acyclic coherent
  obtain ⟨params, start⟩ := params_yields acyclic signature.function.params _ start
  obtain ⟨result, start⟩ := toTy_yields acyclic signature.function.result _ start
  rw [instantiate_run, renames]
  simp only [Substitution.applyParams_eq_map]
  cases declared : signature.block with
  | none =>
    simp only [MethodType.map, Arena.methodType, declared, params, result]
    rfl
  | some block =>
    obtain ⟨blockParams, start⟩ := params_yields acyclic block.function.params _ start
    obtain ⟨blockResult, _⟩ := toTy_yields acyclic block.function.result _ start
    simp only [MethodType.map, Arena.methodType, declared, params, result, blockParams, blockResult]
    rfl

/-- An overload is the declared method type with everything replaced, where the substitution fills the
placeholder for `self`. -/
theorem instantiate_eq (acyclic : a.env.arena.Acyclic) {s : Session} (coherent : s.Coherent a)
    {signature : DeclaredMethod NodeId} {selfType : Ty} {substitution : Substitution} {u : Ty}
    (filled : substitution.slot .selfType = some u) (origin : Option Origin)
    {renamed : (List Name × Substitution) × Session}
    (renames : Session.renameTaken selfType.freeVars signature.typeParams .empty s = renamed) :
    (a.instantiate signature selfType (some substitution) origin s).1 =
      ⟨{ (a.env.arena.methodType signature).replace
            (renamed.1.2.merge substitution true).replacement with
          typeParams := renamed.1.1 }, origin⟩ := by
  have notEmpty : (renamed.1.2.merge substitution true).isEmpty = false :=
    Substitution.isEmpty_merge filled
  rw [instantiate_eq_apply acyclic coherent signature substitution origin renames,
    MethodType.replace_eq_map, MethodType.map_congr fun t _ => Substitution.apply_eq notEmpty t]

theorem typeParams_withEvidence (a : Analysis) (name : Name) (overload : Overload) :
    (a.withEvidence name overload).type.typeParams = overload.type.typeParams := by
  unfold withEvidence
  split <;> rfl

variable {substitution : Substitution} {selfType : Ty} {s later : Session} {name : Name}
  {declared : DeclaredOverload} {built : Overload}

/-- The type parameters of an overload are those declared, with new names for those that are taken. -/
theorem Builds.entries (builds : a.Builds substitution selfType name s later declared built) :
    List.Forall₂ (s.IsEntry later selfType.freeVars) declared.signature.typeParams
      built.type.typeParams := by
  obtain ⟨here, reached, rfl, left⟩ := builds
  rw [typeParams_withEvidence, typeParams_instantiate]
  have after := (leads_trans (leads_instantiate a declared.signature selfType substitution
    (some declared.origin) here) left).grows
  exact (Session.renameTaken_entries selfType.freeVars declared.signature.typeParams .empty
    here).2.imp fun q v entry => entry.widen reached.grows after

/-- A type keeps clear of renamed type parameters exactly if all of them that occur in it are taken,
and no new name occurs in it. -/
theorem clear_iff {taken vars entries : List Name}
    (renamed : List.Forall₂ (s.IsEntry later taken) vars entries) (t : Ty) :
    (∀ v ∈ t.freeVars, v ∉ entries) ↔
      (∀ q ∈ vars, q ∈ t.freeVars → q ∈ taken) ∧
        ∀ entry ∈ vars.zip entries, entry.1 ∈ taken → entry.2 ∉ t.freeVars := by
  obtain ⟨length, entry⟩ := List.forall₂_iff_zip.1 renamed
  constructor
  · intro clear
    refine ⟨fun q own occurs => ?_, fun entry paired _ occurs => ?_⟩
    · have all : (vars.zip entries).map Prod.fst = vars :=
        List.map_fst_zip (Nat.le_of_eq length)
      rw [← all] at own
      obtain ⟨⟨q', v⟩, paired, rfl⟩ := List.mem_map.1 own
      by_contra free
      have kept := entry paired
      rw [Session.IsEntry, if_neg free] at kept
      subst kept
      exact clear v occurs (List.of_mem_zip paired).2
    · exact clear entry.2 occurs (List.of_mem_zip paired).2
  · rintro ⟨known, unused⟩ v occurs isEntry
    have all : (vars.zip entries).map Prod.snd = entries :=
      List.map_snd_zip (Nat.le_of_eq length.symm)
    rw [← all] at isEntry
    obtain ⟨⟨q, v'⟩, paired, rfl⟩ := List.mem_map.1 isEntry
    by_cases clash : q ∈ taken
    · exact unused (q, v') paired clash occurs
    · have kept := entry paired
      rw [Session.IsEntry, if_neg clash] at kept
      subst kept
      exact clash (known v' (List.of_mem_zip paired).1 occurs)

/-! ### Boxes of something -/

namespace Boxes

/-- The well-known names and those of a class of boxes. -/
def names : Interner := ⟨Interner.initial.texts ++ ["Box", "map", "E", "T"]⟩

def box : TypeName := .topLevel ⟨26⟩
def mapName : Name := ⟨27⟩
def varE : Name := ⟨28⟩
def varT : Name := ⟨29⟩

/-- The declared overload `map: [own] (element) -> own`, over an arena of these two variables. -/
def mapping (own : Name) : DeclaredOverload :=
  ⟨⟨[own], ⟨{ DeclaredParams.empty with required := [.anonymous 0] }, 1⟩, none⟩,
    ⟨box, .ofInstance⟩⟩

/-- The class `Box[element]` with the method `map`. -/
def boxDefinition (element own : Name) : Definition := ⟨[element], [⟨mapName, false, [mapping own]⟩]⟩

/-- Nothing is declared but the class. -/
def declaring (element own : Name) : Analysis where
  env := { Environment.empty 0 with
    arena := ((Arena.empty 0).push (.var element)).push (.var own)
    classes := [(box, ⟨.ofClass, boxDefinition element own, ⟨[element], []⟩⟩)] }
  core := .standard
  joinRule := .structural

/-- The overload `[own] (element) -> result` of `map`. -/
def mapped (own : Name) (element result : Ty) : Overload :=
  ⟨⟨[own], .positional [element], none, result⟩, some ⟨box, .ofInstance⟩⟩

/-- The interface of a box: the one method `map`. -/
def offering (selfType : Ty) (overload : Overload) : Interface :=
  (Interface.empty selfType false).put mapName [overload]

theorem isNamed (element own : Name) (arg : Ty) :
    (declaring element own).env.IsNamed (.instanceOf box [arg]) (boxDefinition element own) [arg] :=
  .ofClass [arg] rfl

theorem acyclic (element own : Name) : (declaring element own).env.arena.Acyclic :=
  ((Arena.acyclic_empty 0).push (by intro _ h; cases h)).push (by intro _ h; cases h)

end Boxes

open Boxes

variable {t : Ty} {definition : Definition} {args : List Ty} {includePrivate : Bool}

/-! ### Arguments of the receiver -/

/-- **When the arguments of a receiver keep clear of the type parameters of its methods.** An overload
has the declared type parameters, those that are free in the type for `self` with new names. None of
the variables of an argument is among them exactly if every declared type parameter that occurs in the
argument is free in the type for `self`, and no new name occurs in the argument. -/
theorem interfaceFor_clear_iff (named : a.env.IsNamed t definition args) {i : Interface}
    (computed : (a.interfaceFor t includePrivate selfType s).1 = .ok i) (name : Name) :
    let later := (a.interfaceFor t includePrivate selfType s).2
    Overloaded (fun declared built =>
        List.Forall₂ (s.IsEntry later selfType.freeVars) declared.signature.typeParams
          built.type.typeParams ∧
        ∀ arg ∈ args, (∀ v ∈ arg.freeVars, v ∉ built.type.typeParams) ↔
          (∀ q ∈ declared.signature.typeParams, q ∈ arg.freeVars → q ∈ selfType.freeVars) ∧
            ∀ entry ∈ declared.signature.typeParams.zip built.type.typeParams,
              entry.1 ∈ selfType.freeVars → entry.2 ∉ arg.freeVars)
      (definition.visible? includePrivate name) (i.find? name) := by
  intro later
  obtain ⟨substitution, i', _, _, computed', built⟩ :=
    interfaceFor_named named (length_eq_of_interfaceFor named computed) includePrivate selfType s
  have same : i' = i := Except.ok.inj (computed'.symm.trans computed)
  subst same
  exact (built name).imp fun declared built builds =>
    ⟨builds.entries, fun arg _ => clear_iff builds.entries arg⟩

/-- On a box of `T`, taken as the receiver, the method's own `T` gets a new name. -/
theorem interfaceFor_clear_iff_box :
    let receiver := Ty.instanceOf box [.var varT]
    let overload := mapped ⟨30⟩ (.var varT) (.var ⟨30⟩)
    (declaring varE varT).env.IsNamed receiver (boxDefinition varE varT) [.var varT] ∧
      ((declaring varE varT).interfaceFor receiver false receiver (.start names 1)).1 =
        .ok (offering receiver overload) ∧
      ∀ v ∈ (Ty.var varT).freeVars, v ∉ overload.type.typeParams := by
  intro receiver overload
  have computed : ((declaring varE varT).interfaceFor receiver false receiver (.start names 1)).1 =
      .ok (offering receiver overload) := by rfl
  refine ⟨isNamed varE varT (.var varT), computed, ?_⟩
  have single := (interfaceFor_clear_iff (isNamed varE varT (.var varT)) computed mapName).of_single
  have clear := single.2 (.var varT) List.mem_cons_self
  exact clear.2 ⟨by decide, by decide⟩

/-- While `self` stands for itself, nothing is taken: the variable `T` of the receiver, put in place of
`E`, falls under the method's own `T`. -/
theorem interfaceFor_captures_box :
    let receiver := Ty.instanceOf box [.var varT]
    let overload := mapped varT (.var varT) (.var varT)
    (declaring varE varT).env.IsNamed receiver (boxDefinition varE varT) [.var varT] ∧
      (boxDefinition varE varT).visible? false mapName = some ⟨mapName, false, [mapping varT]⟩ ∧
      varE ∉ (mapping varT).signature.typeParams ∧
      Ty.var varE ∈
        ((declaring varE varT).env.arena.methodType (mapping varT).signature).params.toList ∧
      ((declaring varE varT).interfaceFor receiver false .selfType (.start names 1)).1 =
        .ok (offering .selfType overload) ∧
      (offering .selfType overload).find? mapName = some [overload] ∧
      ∃ v ∈ (Ty.var varT).freeVars, v ∈ overload.type.typeParams := by
  intro receiver overload
  exact ⟨isNamed varE varT (.var varT), rfl, by decide, by decide, by rfl, by rfl, varT, by decide,
    by decide⟩

/-! ### Type parameters of the class -/

/-- A built overload is the declared method type, with what the substitution has in place of variables and
placeholders, and in place of those variables that it does not bind the names they have got. -/
theorem Builds.eq_replace (acyclic : a.env.arena.Acyclic) (coherent : s.Coherent a) {u : Ty}
    (filled : substitution.slot .selfType = some u)
    (builds : a.Builds substitution selfType name s later declared built) :
    ∃ renamed : Substitution,
      built = a.withEvidence name
        ⟨{ (a.env.arena.methodType declared.signature).replace
              (renamed.merge substitution true).replacement with
          typeParams := built.type.typeParams }, some declared.origin⟩ ∧
      (∀ word, renamed.slot word = none) ∧
      ∀ q, (renamed.merge substitution true).replacement.var q =
        (substitution.bindings.find? q).getD (.var
          (((NameMap.ofLists declared.signature.typeParams built.type.typeParams).find? q).getD q)) := by
  obtain ⟨here, reached, rfl, _⟩ := builds
  refine ⟨(Session.renameTaken selfType.freeVars declared.signature.typeParams .empty here).1.2, ?_,
    fun word => ?_, fun q => ?_⟩
  · rw [typeParams_withEvidence, typeParams_instantiate]
    rw [instantiate_eq acyclic (reached.coherent acyclic coherent) filled _ rfl]
  · rw [Session.slot_renameTaken]
    rfl
  · rw [typeParams_withEvidence, typeParams_instantiate]
    exact Session.var_renameTaken_merge _ _ here substitution q

/-- A built overload is the declared method type, with what the substitution binds in place of
variables, and in place of those that it does not bind the names they have got. -/
theorem Builds.replaces (acyclic : a.env.arena.Acyclic) (coherent : s.Coherent a) {u : Ty}
    (filled : substitution.slot .selfType = some u)
    (builds : a.Builds substitution selfType name s later declared built) :
    ∃ r : Replacement,
      built = a.withEvidence name
        ⟨{ (a.env.arena.methodType declared.signature).replace r with
          typeParams := built.type.typeParams }, some declared.origin⟩ ∧
      ∀ q, r.var q = (substitution.bindings.find? q).getD (.var
        (((NameMap.ofLists declared.signature.typeParams built.type.typeParams).find? q).getD q)) := by
  obtain ⟨renamed, replaced, _, vars⟩ := builds.eq_replace acyclic coherent filled
  exact ⟨_, replaced, vars⟩

/-- The default of a look-up is what is found exactly if nothing else is. -/
theorem getD_eq_iff {found : Option Ty} {t : Ty} :
    found.getD t = t ↔ ∀ arg, found = some arg → arg = t := by
  cases found with
  | none => simp
  | some arg => simp

/-- **When a type parameter of a method hides one of its class.** Where there are as many arguments as
type parameters, the interface is computed, and each overload is the declared one with types in place of
its variables: what the class has bound, else the name a variable has got as a type parameter of the
method. So a type parameter of the method becomes the variable of its entry exactly if the class has no
type parameter of that name, or is given that very variable for it. -/
theorem interfaceFor_shadows_iff (acyclic : a.env.arena.Acyclic)
    (named : a.env.IsNamed t definition args)
    (length : definition.typeParams.length = args.length) (names : Interner) (nextFresh : Nat)
    (events : List Event) (includePrivate : Bool) (selfType : Ty) :
    let s := a.after (.start names nextFresh) events
    let later := (a.interfaceFor t includePrivate selfType s).2
    let bound := NameMap.ofLists definition.typeParams args
    ∃ i, (a.interfaceFor t includePrivate selfType s).1 = .ok i ∧ ∀ name,
      Overloaded (fun declared built =>
          let entries := NameMap.ofLists declared.signature.typeParams built.type.typeParams
          List.Forall₂ (s.IsEntry later selfType.freeVars) declared.signature.typeParams
            built.type.typeParams ∧
          ∃ r : Replacement,
            built = a.withEvidence name
              ⟨{ (a.env.arena.methodType declared.signature).replace r with
                typeParams := built.type.typeParams }, some declared.origin⟩ ∧
            (∀ q, r.var q = (bound.find? q).getD (.var ((entries.find? q).getD q))) ∧
            ∀ q ∈ declared.signature.typeParams, ∃ v, entries.find? q = some v ∧
              (r.var q = .var v ↔ ∀ arg, bound.find? q = some arg → arg = .var v))
        (definition.visible? includePrivate name) (i.find? name) := by
  intro s later bound
  have coherent : s.Coherent a := (idle_after acyclic (idle_start a names nextFresh) events).coherent
  obtain ⟨substitution, i, bindings, filled, computed, built⟩ :=
    interfaceFor_named named length includePrivate selfType s
  refine ⟨i, computed, fun name => (built name).imp fun declared built builds => ?_⟩
  obtain ⟨r, replaced, vars⟩ := builds.replaces acyclic coherent filled
  rw [bindings] at vars
  refine ⟨builds.entries, r, replaced, vars, fun q member => ?_⟩
  obtain ⟨v, entry⟩ := NameMap.find?_ofLists_of_mem builds.entries.length_eq member
  refine ⟨v, entry, ?_⟩
  rw [vars q, entry]
  exact getD_eq_iff

/-- In a box of `E` the method's own `T` stays generic. -/
theorem interfaceFor_shadows_iff_box :
    let receiver := Ty.instanceOf box [.nil]
    let analysis := declaring varE varT
    let overload := mapped varT .nil (.var varT)
    analysis.env.arena.Acyclic ∧
      analysis.env.IsNamed receiver (boxDefinition varE varT) [.nil] ∧
      (boxDefinition varE varT).typeParams.length = [Ty.nil].length ∧
      (analysis.interfaceFor receiver false receiver (.start names 1)).1 =
        .ok (offering receiver overload) ∧
      ∃ r : Replacement,
        overload = analysis.withEvidence mapName
          ⟨{ (analysis.env.arena.methodType (mapping varT).signature).replace r with
            typeParams := [varT] }, some ⟨box, .ofInstance⟩⟩ ∧ r.var varT = .var varT := by
  intro receiver analysis overload
  have computed : (analysis.interfaceFor receiver false receiver (.start names 1)).1 =
      .ok (offering receiver overload) := by rfl
  obtain ⟨i, computed', methods⟩ := interfaceFor_shadows_iff (acyclic varE varT) (isNamed varE varT .nil) rfl
    names 1 [] false receiver
  have same : i = offering receiver overload := Except.ok.inj (computed'.symm.trans computed)
  subst same
  obtain ⟨_, r, replaced, _, own⟩ := (methods mapName).of_single
  obtain ⟨v, entry, generic⟩ := own varT List.mem_cons_self
  have kept : (NameMap.ofLists [varT] [varT]).find? varT = some varT := by rfl
  have unbound : (NameMap.ofLists [varE] [Ty.nil]).find? varT = none := by rfl
  obtain rfl : varT = v := Option.some.inj (kept.symm.trans entry)
  refine ⟨acyclic varE varT, isNamed varE varT .nil, rfl, computed, r, replaced, ?_⟩
  exact generic.2 fun arg found => by cases unbound.symm.trans found

/-- In a box of `T` the method's own `T` is replaced like that of the class: on the receiver `Box[T]`
the overload is `[T(1)] (T) -> T`, and `T(1)` occurs nowhere. -/
theorem interfaceFor_replaces_own_box :
    let receiver := Ty.instanceOf box [.var varT]
    let overload := mapped ⟨30⟩ (.var varT) (.var varT)
    (declaring varT varT).env.IsNamed receiver (boxDefinition varT varT) [.var varT] ∧
      (boxDefinition varT varT).visible? false mapName = some ⟨mapName, false, [mapping varT]⟩ ∧
      varT ∈ (mapping varT).signature.typeParams ∧
      ((declaring varT varT).env.arena.methodType (mapping varT).signature).result = .var varT ∧
      ((declaring varT varT).interfaceFor receiver false receiver (.start names 1)).1 =
        .ok (offering receiver overload) ∧
      (offering receiver overload).find? mapName = some [overload] ∧
      overload.type.typeParams = [⟨30⟩] ∧ overload.type.result ≠ .var ⟨30⟩ := by
  intro receiver overload
  exact ⟨isNamed varT varT (.var varT), rfl, by decide, by rfl, by rfl, by rfl, rfl, by decide⟩

end Analysis

end SignatureAlgebra
