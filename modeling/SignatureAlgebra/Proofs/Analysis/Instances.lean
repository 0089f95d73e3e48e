/-
**The members of a class, computed once and instantiated.**

The members that an instance of a class has for a receiver are those that an instance with variables as
arguments has for `self`, with the arguments in place of the variables and the receiver in place of
`self`. The variables must not occur in what the class declares, and no type parameter of a method may be
free in the receiver, so that nothing is renamed on either side. Replacing twice comes to replacing once,
since variables, `self` and classes neither absorb other members of a union nor add nothing to them.

* `NameMap.find?_ofLists_through` — looking up a value through a new name.
* `Builds.eq_of_free` — an overload none of whose type parameters is taken.
* `Substitution.ofInstance`, `Substitution.ofVariables` — the substitutions on the two ways.
* `Substitution.replace_ofInstance` — one of them after the other.
* `Analysis.interfaceFor_eq_map_generic` — the statement.
-/
import SignatureAlgebra.Proofs.Analysis.Hygiene
import SignatureAlgebra.Proofs.Conversion.Types
import SignatureAlgebra.Proofs.Substitution.Normal
import SignatureAlgebra.Proofs.Ty.Composition

namespace SignatureAlgebra

/-! ### Look-ups through new names -/

namespace NameMap

variable {α β : Type}

theorem find?_ofLists_map (f : α → β) (names : List Name) (values : List α) (q : Name) :
    (ofLists names (values.map f)).find? q = ((ofLists names values).find? q).map f := by
  induction names generalizing values with
  | nil => rfl
  | cons name rest ih =>
    cases values with
    | nil => rfl
    | cons value values =>
      rw [List.map_cons, find?_ofLists_cons, find?_ofLists_cons, ih]
      cases (ofLists rest values).find? q <;> by_cases same : q = name <;> simp [same]

theorem find?_ofLists_of_not_mem {names : List Name} {values : List α} {q : Name}
    (absent : q ∉ names) : (ofLists names values).find? q = none := by
  cases found : (ofLists names values).find? q with
  | none => rfl
  | some value => exact absurd (List.of_mem_zip (mem_zip_of_find?_ofLists found)).1 absent

/-- **Looking up a value through a new name**: first the new name of a name, then the value of that. -/
theorem find?_ofLists_through {names fresh : List Name} {values : List α} (distinct : fresh.Nodup)
    (length : names.length = fresh.length) (length' : fresh.length = values.length) (q : Name) :
    ((ofLists names fresh).find? q).bind (ofLists fresh values).find? =
      (ofLists names values).find? q := by
  induction names generalizing fresh values with
  | nil => rfl
  | cons name rest ih =>
    match fresh, values, length, length' with
    | x :: fresh, value :: values, length, length' =>
      obtain ⟨isNew, distinct'⟩ := List.nodup_cons.1 distinct
      have rest' := ih distinct' (Nat.succ.inj length) (Nat.succ.inj length')
      rw [find?_ofLists_cons, find?_ofLists_cons, ← rest']
      cases found : (ofLists rest fresh).find? q with
      | none =>
        by_cases same : q = name
        · have unbound : (ofLists fresh values).find? x = none := find?_ofLists_of_not_mem isNew
          simp [same, find?_ofLists_cons, unbound]
        · simp [same]
      | some y =>
        have isLater : y ∈ fresh := (List.of_mem_zip (mem_zip_of_find?_ofLists found)).2
        obtain ⟨value', bound⟩ := find?_ofLists_of_mem (Nat.succ.inj length') isLater
        simp [find?_ofLists_cons, bound]

end NameMap

/-! ### Overloads without renaming -/

theorem Session.renameTaken_of_free {taken vars : List Name} (free : ∀ q ∈ vars, q ∉ taken)
    (clashes : Substitution) (s : Session) :
    renameTaken taken vars clashes s = ((vars, clashes), s) := by
  induction vars generalizing clashes s with
  | nil => rfl
  | cons name rest ih =>
    rw [renameTaken_cons_of_not_mem (free name List.mem_cons_self),
      ih fun q member => free q (List.mem_cons_of_mem _ member)]

namespace Analysis

variable {a : Analysis}

/-- **An overload none of whose type parameters is taken** is the declared one with everything
replaced. -/
theorem Builds.eq_of_free (acyclic : a.env.arena.Acyclic) {s later : Session} (coherent : s.Coherent a)
    {substitution : Substitution} {selfType u : Ty} {name : Name} {declared : DeclaredOverload}
    {built : Overload} (filled : substitution.slot .selfType = some u)
    (free : ∀ q ∈ declared.signature.typeParams, q ∉ selfType.freeVars)
    (builds : a.Builds substitution selfType name s later declared built) :
    built = a.withEvidence name
      ⟨(a.env.arena.methodType declared.signature).replace substitution.replacement,
        some declared.origin⟩ := by
  obtain ⟨here, reached, rfl, _⟩ := builds
  rw [instantiate_eq acyclic (reached.coherent acyclic coherent) filled _
    (Session.renameTaken_of_free free .empty here), Substitution.empty_merge]
  rfl

/-- What the result of a predicate says is not replaced by anything. -/
theorem withEvidence_of_none {name : Name} {o : Overload}
    (found : o.origin.bind (a.predicateEvidence? name) = none) : a.withEvidence name o = o := by
  rw [withEvidence, found]

theorem withEvidence_of_some {name : Name} {o : Overload} {evidence : Evidence}
    (found : o.origin.bind (a.predicateEvidence? name) = some evidence) :
    a.withEvidence name o = o.withResult (.logic evidence) := by
  rw [withEvidence, found]

theorem applyOverload_withEvidence (s : Substitution) (name : Name) (overload : Overload) :
    s.applyOverload (a.withEvidence name overload) =
      a.withEvidence name (s.applyOverload overload) := by
  cases found : overload.origin.bind (a.predicateEvidence? name) with
  | none =>
    rw [withEvidence_of_none found, withEvidence_of_none (o := s.applyOverload overload) found]
  | some evidence =>
    rw [withEvidence_of_some found, withEvidence_of_some (o := s.applyOverload overload) found]
    have kept : ∀ s : Substitution, s.apply (.logic evidence) = .logic evidence := by
      intro s
      unfold Substitution.apply
      split <;> rfl
    simp only [Substitution.applyOverload, Substitution.applyMethodType, Overload.withResult, kept]

end Analysis

/-! ### The two substitutions -/

namespace Substitution

variable {typeParams xs : List Name} {args : List Ty} {selfType : Ty} {name : TypeName}

/-- What is put in place of the type parameters of a class and of the placeholders in its members. -/
def ofInstance (name : TypeName) (typeParams : List Name) (args : List Ty) (selfType : Ty) :
    Substitution :=
  (((⟨.ofLists typeParams args, fun _ => none⟩ : Substitution).fill .instanceType
    (.instanceOf name (List.replicate args.length .any))).fill .classType (.singletonOf name)).fill
      .selfType selfType

/-- Binds variables to arguments and fills in the receiver. -/
def ofVariables (xs : List Name) (args : List Ty) (selfType : Ty) : Substitution :=
  (⟨.ofLists xs args, fun _ => none⟩ : Substitution).fill .selfType selfType

theorem isNormal_bound (normal : ∀ t ∈ args, t.IsNormal) (names : List Name) :
    (⟨.ofLists names args, fun _ => none⟩ : Substitution).IsNormal :=
  ⟨fun _ t found => normal t (List.of_mem_zip (NameMap.mem_zip_of_find?_ofLists found)).2, nofun⟩

/-- With variables for arguments and for `self`, what is put in place of names is in normal form. -/
theorem isNormal_generic (name : TypeName) (typeParams xs : List Name) :
    (ofInstance name typeParams (xs.map .var) .selfType).replacement.IsNormal := by
  have vars : ∀ t ∈ xs.map Ty.var, t.IsNormal := by
    intro t member
    obtain ⟨x, _, rfl⟩ := List.mem_map.1 member
    exact Replacement.isNormal_identity.var x
  exact ((isNormal_bound vars typeParams).placeholders name (xs.map Ty.var).length
    (Replacement.isNormal_identity.placeholder .selfType)).replacement

/-- With variables for arguments and for `self`, what is put in place of names is solid. -/
theorem isSolid_generic (name : TypeName) (typeParams xs : List Name) :
    (ofInstance name typeParams (xs.map .var) .selfType).replacement.IsSolid where
  var q := by
    show (((NameMap.ofLists typeParams (xs.map Ty.var)).find? q).getD (.var q)).IsSolid
    rw [NameMap.find?_ofLists_map]
    cases (NameMap.ofLists typeParams xs).find? q <;> exact ⟨nofun, nofun, nofun⟩
  placeholder word := by cases word <;> exact ⟨nofun, nofun, nofun⟩

/-- **One substitution after the other**: variables for the type parameters of a class, then arguments
for the variables. -/
theorem replace_ofInstance (name : TypeName) (distinct : xs.Nodup) (length : typeParams.length = xs.length)
    (length' : xs.length = args.length) (normal : ∀ t ∈ args, t.IsNormal)
    (receiver : selfType.IsNormal) {t : Ty} (isNormal : t.IsNormal) (unused : ∀ x ∈ xs, x ∉ t.freeVars) :
    (t.replace (ofInstance name typeParams (xs.map .var) .selfType).replacement).replace
        (ofVariables xs args selfType).replacement =
      t.replace (ofInstance name typeParams args selfType).replacement := by
  have normal' : (ofVariables xs args selfType).replacement.IsNormal :=
    ((isNormal_bound normal xs).fill .selfType receiver).replacement
  rw [Ty.replace_replace (isNormal_generic name typeParams xs) (isSolid_generic name typeParams xs)
    normal' isNormal]
  refine Ty.replace_congr (fun q occurs => ?_) (fun word _ => ?_) rfl rfl
  · show (((NameMap.ofLists typeParams (xs.map Ty.var)).find? q).getD (.var q)).replace
        (ofVariables xs args selfType).replacement =
      ((NameMap.ofLists typeParams args).find? q).getD (.var q)
    rw [NameMap.find?_ofLists_map, ← NameMap.find?_ofLists_through distinct length length' q]
    cases found : (NameMap.ofLists typeParams xs).find? q with
    | none =>
      have free : q ∉ xs := fun member => unused q member (Ty.mem_freeVars.2 occurs)
      show ((NameMap.ofLists xs args).find? q).getD (.var q) = .var q
      rw [NameMap.find?_ofLists_of_not_mem free]
      rfl
    | some x =>
      have isNew : x ∈ xs := (List.of_mem_zip (NameMap.mem_zip_of_find?_ofLists found)).2
      obtain ⟨arg, bound⟩ := NameMap.find?_ofLists_of_mem length' isNew
      show ((NameMap.ofLists xs args).find? x).getD (.var x) =
        ((NameMap.ofLists xs args).find? x).getD (.var q)
      rw [bound]
      rfl
  · cases word with
    | selfType => rfl
    | classType => rfl
    | instanceType =>
      show Ty.replace _ (.instanceOf name (List.replicate (xs.map Ty.var).length .any)) =
        .instanceOf name (List.replicate args.length .any)
      rw [Ty.replace_node]
      show Ty.instanceOf name ((List.replicate (xs.map Ty.var).length Ty.any).map _) = _
      rw [List.map_replicate, List.length_map, length']
      rfl

end Substitution

namespace Analysis

variable {a : Analysis}

/-! ### The members of a class -/

/-- The types that a signature declares are in normal form. -/
theorem isNormal_methodType (arena : Arena) (signature : DeclaredMethod NodeId) :
    ∀ t ∈ (arena.methodType signature).types, t.IsNormal := by
  intro t occurs
  rcases List.mem_append.1 occurs with inParams | isResult
  · rcases List.mem_append.1 inParams with isParam | inBlock
    · exact arena.isNormal_toParams _ t isParam
    · obtain ⟨block, isBlock, member⟩ := List.mem_flatMap.1 inBlock
      obtain ⟨declared, _, rfl⟩ := Option.map_eq_some_iff.1 (Option.mem_toList.1 isBlock)
      rcases List.mem_append.1 member with isParam | isResult
      · exact arena.isNormal_toParams _ t isParam
      · rw [List.mem_singleton.1 isResult]
        exact arena.isNormal_toTy _
  · rw [List.mem_singleton.1 isResult]
    exact arena.isNormal_toTy _

/-- The interface of an instance, with as many arguments as the class has type parameters. -/
theorem interfaceFor_instance {name : TypeName} {definition : Definition} {args : List Ty}
    (declared : a.env.instanceDefinition name = .ok definition)
    (length : definition.typeParams.length = args.length) (includePrivate : Bool) (selfType : Ty)
    (s : Session) :
    a.interfaceFor (.instanceOf name args) includePrivate selfType s =
      let i := a.memberInterface definition
        (Substitution.ofInstance name definition.typeParams args selfType) includePrivate selfType s
      (.ok i.1, i.2) := by
  have run : a.interfaceFor (.instanceOf name args) includePrivate selfType s = (do
      let bound ← Substitution.ofLists definition.typeParams args
      a.memberInterface definition
        (((bound.fill .instanceType (.instanceOf name (List.replicate args.length .any))).fill
          .classType (.singletonOf name)).fill .selfType selfType) includePrivate selfType :
        AnalysisM Interface) s := by
    rw [interfaceFor, interfaceWithin, Ty.recurse_node]
    show a.instanceInterface name args includePrivate selfType s = _
    rw [instanceInterface, declared]
    rfl
  rw [run, Substitution.ofLists, if_pos length]
  rfl

/-- A method that is built from the same member in two ways. -/
theorem eq_map_of_overloaded {R R' : DeclaredOverload → Overload → Prop} {f : Overload → Overload}
    {member : Option Member} {os os' : Option (List Overload)}
    (each : ∀ m ∈ member, ∀ d ∈ m.overloads, ∀ o o', R d o → R' d o' → o = f o')
    (first : Overloaded R member os) (second : Overloaded R' member os') :
    os = os'.map (List.map f) := by
  have related : Option.Rel (List.Forall₂ fun o o' => o = f o') os os' := first.related second each
  cases related with
  | none => rfl
  | some pairs =>
    refine congrArg some ?_
    rwa [← List.forall₂_eq_eq_eq, List.forall₂_map_right_iff]

theorem mem_of_visible? {definition : Definition} {includePrivate : Bool} {name : Name}
    {member : Member} (found : definition.visible? includePrivate name = some member) :
    member ∈ definition.members := by
  have visible := List.mem_reverse.1 (List.mem_of_find?_eq_some found)
  exact List.mem_of_mem_filter visible

/-- **The members of a class, computed once and instantiated.** Take variables that occur in nothing a
class declares, and arguments and a receiver in normal form, such that no type parameter of a method of
the class is free in the receiver. Then the class with these arguments has for this receiver the methods
that it has with the variables for `self`, each overload with the arguments in place of the variables and
the receiver in place of `self`. -/
theorem interfaceFor_eq_map_generic (acyclic : a.env.arena.Acyclic) {name : TypeName}
    {definition : Definition} (declared : a.env.instanceDefinition name = .ok definition)
    {xs : List Name} {args : List Ty} {selfType : Ty} (distinct : xs.Nodup)
    (length : definition.typeParams.length = xs.length) (length' : xs.length = args.length)
    (unused : ∀ member ∈ definition.members, ∀ o ∈ member.overloads, ∀ x ∈ xs,
      x ∉ o.signature.typeParams ∧ ∀ t ∈ (a.env.arena.methodType o.signature).types, x ∉ t.freeVars)
    (normal : ∀ t ∈ args, t.IsNormal) (receiver : selfType.IsNormal)
    (free : ∀ member ∈ definition.members, ∀ o ∈ member.overloads, ∀ q ∈ o.signature.typeParams,
      q ∉ selfType.freeVars)
    (includePrivate : Bool) (names names' : Interner) (nextFresh nextFresh' : Nat)
    (events events' : List Event) :
    let s := a.after (.start names nextFresh) events
    let s' := a.after (.start names' nextFresh') events'
    ∃ (filling : Substitution) (i generic : Interface),
      Substitution.ofLists xs args = .ok filling ∧
      (a.interfaceFor (.instanceOf name args) includePrivate selfType s).1 = .ok i ∧
      (a.interfaceFor (.instanceOf name (xs.map .var)) includePrivate .selfType s').1 = .ok generic ∧
      i.methods = generic.methods.map
        (List.map (filling.fill .selfType selfType).applyOverload) := by
  intro s s'
  have coherent : s.Coherent a := (idle_after acyclic (idle_start a names nextFresh) events).coherent
  have coherent' : s'.Coherent a :=
    (idle_after acyclic (idle_start a names' nextFresh') events').coherent
  let specific := Substitution.ofInstance name definition.typeParams args selfType
  let general := Substitution.ofInstance name definition.typeParams (xs.map .var) .selfType
  let filling := Substitution.ofVariables xs args selfType
  have lengths : definition.typeParams.length = args.length := length.trans length'
  have lengths' : definition.typeParams.length = (xs.map Ty.var).length := by
    rw [List.length_map, length]
  refine ⟨⟨.ofLists xs args, fun _ => none⟩, (a.memberInterface definition specific includePrivate
    selfType s).1, (a.memberInterface definition general includePrivate .selfType s').1, ?_, ?_, ?_, ?_⟩
  · rw [Substitution.ofLists, if_pos length']
    rfl
  · rw [interfaceFor_instance declared lengths]
  · rw [interfaceFor_instance declared lengths']
  · refine NameMap.ext fun method => ?_
    rw [NameMap.find?_map]
    refine eq_map_of_overloaded (fun member found o isOverload built built' isBuilt isBuilt' => ?_)
      (find?_memberInterface a definition specific includePrivate selfType s method)
      (find?_memberInterface a definition general includePrivate .selfType s' method)
    have isMember := mem_of_visible? found
    have apart : ∀ x ∈ xs, x ∉ o.signature.typeParams := fun x isNew =>
      (unused member isMember o isOverload x isNew).1
    rw [isBuilt.eq_of_free acyclic coherent rfl (free member isMember o isOverload),
      isBuilt'.eq_of_free acyclic coherent' rfl fun _ _ => List.not_mem_nil]
    show _ = filling.applyOverload _
    rw [applyOverload_withEvidence]
    congr 1
    have kept : filling.without o.signature.typeParams = filling :=
      Substitution.without_eq fun q own =>
        NameMap.find?_ofLists_of_not_mem fun isNew => apart q isNew own
    have some : (filling.without o.signature.typeParams).isEmpty = false := by
      rw [kept]
      simp [Substitution.isEmpty, filling, Substitution.ofVariables, Substitution.fill]
    have twice := (a.env.arena.methodType o.signature).replace_replace fun t occurs =>
      Substitution.replace_ofInstance name distinct length length' normal receiver
        (isNormal_methodType a.env.arena o.signature t occurs)
        fun x isNew => (unused member isMember o isOverload x isNew).2 t occurs
    rw [← twice, Substitution.applyOverload, Substitution.applyMethodType_eq some]
    congr 2
    exact congrArg Substitution.replacement kept.symm

open Boxes in
/-- The methods of a box of `untyped`, with `nil` as the receiver, from those of a box of `X`. -/
theorem interfaceFor_eq_map_generic_box :
    let analysis := declaring varE varT
    let varX : Name := ⟨30⟩
    let specific := offering .nil (mapped varT .any (.var varT))
    let general := offering .selfType (mapped varT (.var varX) (.var varT))
    analysis.env.arena.Acyclic ∧
      analysis.env.instanceDefinition box = .ok (boxDefinition varE varT) ∧
      (analysis.interfaceFor (.instanceOf box [.any]) false .nil (.start names 1)).1 = .ok specific ∧
      (analysis.interfaceFor (.instanceOf box [.var varX]) false .selfType (.start names 1)).1 =
        .ok general ∧
      ∃ filling, Substitution.ofLists [varX] [.any] = .ok filling ∧
        specific.methods = general.methods.map (List.map (filling.fill .selfType .nil).applyOverload) := by
  intro analysis varX specific general
  have declared : analysis.env.instanceDefinition box = .ok (boxDefinition varE varT) := by rfl
  have computed : (analysis.interfaceFor (.instanceOf box [.any]) false .nil (.start names 1)).1 =
      .ok specific := by rfl
  have computed' : (analysis.interfaceFor (.instanceOf box [.var varX]) false .selfType
      (.start names 1)).1 = .ok general := by rfl
  obtain ⟨filling, i, generic, built, result, result', same⟩ := interfaceFor_eq_map_generic
    (acyclic varE varT) declared (by decide : [varX].Nodup) rfl (by rfl : _ = [Ty.any].length)
    (by decide) (by decide) (by decide : Ty.nil.IsNormal) (by decide) false names names 1 1 [] []
  obtain rfl : i = specific := Except.ok.inj (result.symm.trans computed)
  obtain rfl : generic = general := Except.ok.inj (result'.symm.trans computed')
  exact ⟨acyclic varE varT, declared, computed, computed', filling, built, same⟩

end Analysis

end SignatureAlgebra
