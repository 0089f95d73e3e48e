/-
**What may occur in the overloads of an interface.**

If the types of a question are within a vocabulary, and so is everything that is declared once type
parameters and placeholders are replaced, then every overload of the interface is within it too, apart from
its own type parameters. A refusal is one that such types can lead to: whether a name may be unknown or have
a wrong number of arguments depends on the vocabulary alone.

* `MethodType.IsWithin`, `Interface.IsWithin`, `Definition.IsWithin` — the predicate on what types are in.
* `JoinRule.keeps_types`, `JoinRule.KeepsVocabulary`, `JoinRule.keepsVocabulary_structural` — joining
  overloads.
* `Vocabulary.FitsAliases`, `Vocabulary.Fits` — what is declared fits the vocabulary.
* `Vocabulary.Receives` — a type within the vocabulary whose interface leaves no placeholder behind.
* `Analysis.Builds.isWithin` — one overload; `Analysis.within_instanceInterface`,
  `Analysis.within_tupleInterface` and so on — types of one form.
* `Analysis.within_interfaceFor` — the interface of any type.
-/
import SignatureAlgebra.Proofs.Analysis.Expanding
import SignatureAlgebra.Proofs.Analysis.Instances
import SignatureAlgebra.Proofs.Interface.Everywhere
import SignatureAlgebra.Proofs.Ty.Vocabulary

namespace SignatureAlgebra

variable {v w : Vocabulary}

/-! ### Method types and interfaces -/

/-- Every type of a method type is within a vocabulary, apart from its own type parameters. -/
def MethodType.IsWithin (v : Vocabulary) (type : MethodType) : Prop :=
  ∀ t ∈ type.types, t.IsWithin (v.withVars type.typeParams)

/-- Every overload of an interface is within a vocabulary. -/
def Interface.IsWithin (v : Vocabulary) (i : Interface) : Prop := i.Everywhere (MethodType.IsWithin v)

/-- Every signature of a definition is within a vocabulary. -/
def Definition.IsWithin (arena : Arena) (v : Vocabulary) (d : Definition) : Prop :=
  ∀ member ∈ d.members, ∀ declared ∈ member.overloads, (arena.methodType declared.signature).IsWithin v

/-- A rule that joins overloads without bringing in anything new. -/
def JoinRule.KeepsVocabulary (rule : JoinRule) : Prop := ∀ v, rule.Keeps (MethodType.IsWithin v)

/-- **The structural rule keeps what connecting keeps**, for all types of a method type, also if it depends
on the type parameters. -/
theorem JoinRule.keeps_types {P : List Name → Ty → Prop}
    (combine : ∀ typeParams (c : Connective) ts, (∀ t ∈ ts, P typeParams t) →
      P typeParams (Ty.combine c ts)) :
    structural.Keeps fun type => ∀ t ∈ type.types, P type.typeParams t := by
  refine keeps_structural fun left right joined holds holds' found => ?_
  obtain ⟨typeParams, _, pairs, lefts, rights, rfl⟩ := MethodType.join?_eq_some found
  intro t isType
  rcases MethodType.mem_types.1 isType with isParam | isBlock | rfl
  · rw [Params.toList_map] at isParam
    obtain ⟨pair, isPair, rfl⟩ := List.mem_map.1 isParam
    refine combine _ _ _ fun u isSide => ?_
    rcases List.mem_pair.1 isSide with rfl | rfl
    · refine holds _ (MethodType.mem_types.2 (Or.inl ?_))
      rw [← lefts, Params.toList_map]
      exact List.mem_map_of_mem isPair
    · have inRight := holds' pair.2 (MethodType.mem_types.2 (Or.inl (by
        rw [← rights, Params.toList_map]
        exact List.mem_map_of_mem isPair)))
      rwa [← typeParams] at inRight
  · exact holds t (MethodType.mem_types.2 (Or.inr (Or.inl isBlock)))
  · refine combine _ _ _ fun u isSide => ?_
    rcases List.mem_pair.1 isSide with rfl | rfl
    · exact holds _ (MethodType.mem_types.2 (Or.inr (Or.inr rfl)))
    · have ofRight := holds' right.result (MethodType.mem_types.2 (Or.inr (Or.inr rfl)))
      rwa [← typeParams] at ofRight

theorem JoinRule.keepsVocabulary_structural : structural.KeepsVocabulary := fun v =>
  keeps_types fun typeParams _ _ within => Ty.isWithin_combine (v := v.withVars typeParams) within

/-- Overloads made of types within a vocabulary. -/
theorem Overload.isWithin_ofTypes {params : Params Ty} {result : Ty}
    (within : ∀ t ∈ params.toList, t.IsWithin v) (within' : result.IsWithin v) :
    (Overload.ofTypes params result).type.IsWithin v := by
  intro t isType
  rcases MethodType.mem_types.1 isType with isParam | ⟨_, none, _⟩ | rfl
  · exact (within t isParam).withVars []
  · cases none
  · exact within'.withVars []

/-! ### What is declared -/

/-- The base classes, each with the number of its type parameters. -/
def CoreNames.arities (core : CoreNames) : List (TypeName × Nat) :=
  [(core.object, 0), (core.basicObject, 0), (core.moduleClass, 0), (core.nilClass, 0),
    (core.trueClass, 0), (core.falseClass, 0), (core.integer, 0), (core.string, 0), (core.symbol, 0),
    (core.array, 1), (core.hash, 2), (core.proc, 0)]

theorem CoreNames.literalOwner_mem_arities (core : CoreNames) (value : Literal) :
    (core.literalOwner value, 0) ∈ core.arities := by
  cases value with
  | boolean value => cases value <;> simp [literalOwner, arities]
  | _ => simp [literalOwner, arities]

theorem CoreNames.mem_arities_of_mem_booleanClasses {core : CoreNames} {name : TypeName}
    (isBoolean : name ∈ core.booleanClasses) : (name, 0) ∈ core.arities := by
  unfold booleanClasses at isBoolean
  split at isBoolean
  · rw [List.mem_singleton.1 isBoolean]
    simp [arities]
  · rcases List.mem_pair.1 isBoolean with rfl | rfl <;> simp [arities]

/-- What the aliases of a vocabulary stand for is within it; what is refused of them is as `refused`
says. -/
structure Vocabulary.FitsAliases (v : Vocabulary) (a : Analysis) (refused : Error → Prop) : Prop where
  aliases : ∀ name n, v.applied .ofAlias name n →
    Outcome (Ty.IsWithin v) refused (a.env.aliasType name)
  recursiveAlias : ∀ t, refused (.recursiveAlias t)

/-- **What is declared fits a vocabulary.** Where a name of the vocabulary is looked up, what is found is
within the vocabulary, apart from type parameters and placeholders, and the types for the placeholders
are; what is refused is as `refused` says. -/
structure Vocabulary.Fits (v : Vocabulary) (a : Analysis) (refused : Error → Prop) : Prop
    extends v.FitsAliases a refused where
  instances : ∀ name n, v.applied .ofClass name n →
    Outcome (fun d => d.IsWithin a.env.arena (v.withVars d.typeParams).withPlaceholders ∧
      v.singleton name ∧ (d.typeParams.length ≠ n → refused (.arityMismatch d.typeParams.length n)))
      refused (a.env.instanceDefinition name)
  singletons : ∀ name, v.singleton name →
    Outcome (fun d => d.IsWithin a.env.arena v.withPlaceholders ∧
      v.applied .ofClass name d.typeParams.length) refused (a.env.singletonDefinition name)
  /-- Interfaces give no types for the placeholders, apart from `self`. -/
  interfaces : ∀ name n, v.applied .ofInterface name n →
    v.placeholder .instanceType → v.placeholder .classType →
      Outcome (fun d => d.IsWithin a.env.arena (v.withVars d.typeParams).withPlaceholders ∧
        (d.typeParams.length ≠ n → refused (.arityMismatch d.typeParams.length n)))
        refused (a.env.interfaceDefinition name)
  core : ∀ entry ∈ a.core.arities, v.applied .ofClass entry.1 entry.2
  joins : a.joinRule.Keeps (MethodType.IsWithin v)
  invalidReceiver : ∀ t, refused (.invalidReceiver t)
  selfWithoutReceiver : refused .selfWithoutReceiver

/-- **A type within a vocabulary, taken as a receiver.** If an interface can be reached from it, the
placeholders that interfaces leave behind are of the vocabulary. -/
structure Vocabulary.Receives (v : Vocabulary) (env : Environment) (selfType t : Ty) : Prop where
  within : t.IsWithin v
  interfaces : ∀ name args, env.Reaches selfType t (.interfaceOf name args) →
    v.placeholder .instanceType ∧ v.placeholder .classType

namespace Analysis

variable {a : Analysis} {receivers : List Ty} {refused : Error → Prop}

/-! ### One overload -/

/-- What a substitution puts in place of names, from what it binds and fills in. -/
theorem carries_replacement {s : Substitution} {typeParams : List Name}
    (bound : ∀ q t, s.bindings.find? q = some t → t.IsWithin v)
    (all : ∀ q ∈ typeParams, (s.bindings.find? q).isSome)
    (words : ∀ word, (s.replacement.placeholder word).IsWithin v) :
    s.replacement.Carries (v.withVars typeParams).withPlaceholders v where
  var q known := by
    show ((s.bindings.find? q).getD (.var q)).IsWithin v
    cases found : s.bindings.find? q with
    | some t => exact bound q t found
    | none =>
      rcases known with known | isParam
      · exact Ty.isWithin_of_children (t := .var q) known rfl
      · have isBound := all q isParam
        rw [found] at isBound
        cases isBound
  placeholder word _ := words word
  singleton _ known := known
  applied _ _ _ known := known

/-- **An overload that is built of a signature** is within the vocabulary of what is put in place of
names. -/
theorem Builds.isWithin (acyclic : a.env.arena.Acyclic) {s later : Session} (coherent : s.Coherent a)
    {substitution : Substitution} {selfType u : Ty} {name : Name} {declared : DeclaredOverload}
    {built : Overload} (filled : substitution.slot .selfType = some u)
    (bound : ∀ q t, substitution.bindings.find? q = some t → t.IsWithin v)
    (carries : substitution.replacement.Carries w v)
    (within : (a.env.arena.methodType declared.signature).IsWithin w)
    (builds : a.Builds substitution selfType name s later declared built) : built.type.IsWithin v := by
  obtain ⟨renamed, replaced, empty, vars⟩ := builds.eq_replace acyclic coherent filled
  have length := builds.entries.length_eq
  generalize built.type.typeParams = entries at replaced vars length
  have carries' : (renamed.merge substitution true).replacement.Carries
      (w.withVars declared.signature.typeParams) (v.withVars entries) := by
    refine ⟨fun q known => ?_, fun word known => ?_, carries.singleton, carries.applied⟩
    · rw [vars q]
      cases found : substitution.bindings.find? q with
      | some t => exact (bound q t found).withVars entries
      | none =>
        refine Ty.isWithin_of_children ?_ rfl
        show v.var _ ∨ _ ∈ entries
        by_cases own : q ∈ declared.signature.typeParams
        · obtain ⟨entry, isEntry⟩ := NameMap.find?_ofLists_of_mem length own
          rw [isEntry]
          exact Or.inr (List.of_mem_zip (NameMap.mem_zip_of_find?_ofLists isEntry)).2
        · rw [NameMap.find?_ofLists_of_not_mem own]
          have image := (carries.var q (known.resolve_right own)).allows
          change v.Allows ((substitution.bindings.find? q).getD (.var q)) at image
          rw [found] at image
          exact Or.inl image
    · have slot : (renamed.merge substitution true).replacement.placeholder word =
          substitution.replacement.placeholder word := by
        show ((renamed.merge substitution true).slot word).getD _ =
          (substitution.slot word).getD _
        rw [Substitution.slot_merge, empty word, Option.or_none]
      rw [slot]
      exact (carries.placeholder word known).withVars entries
  have types : ∀ t ∈ ((a.env.arena.methodType declared.signature).replace
      (renamed.merge substitution true).replacement).types, t.IsWithin (v.withVars entries) := by
    rw [MethodType.types_replace]
    intro t isType
    obtain ⟨u, isDeclared, rfl⟩ := List.mem_map.1 isType
    exact Ty.isWithin_replace carries' (within u isDeclared)
  rw [replaced]
  unfold withEvidence
  split
  · intro t isType
    rcases MethodType.mem_types.1 isType with isParam | isBlock | rfl
    · exact types t (MethodType.mem_types.2 (Or.inl isParam))
    · exact types t (MethodType.mem_types.2 (Or.inr (Or.inl isBlock)))
    · exact Ty.isWithin_of_children trivial rfl
  · exact types

variable {includePrivate : Bool} {selfType : Ty}

theorem within_memberInterface (acyclic : a.env.arena.Acyclic) {definition : Definition}
    (within : definition.IsWithin a.env.arena w) {s : Substitution} {u : Ty}
    (filled : s.slot .selfType = some u)
    (bound : ∀ q t, s.bindings.find? q = some t → t.IsWithin v) (carries : s.replacement.Carries w v) :
    Ensures (Session.OnWay a receivers) (a.memberInterface definition s includePrivate selfType)
      (Interface.IsWithin v) := by
  intro here start
  refine ⟨fun name overloads found o isOverload => ?_,
    (((pervades_transparent a).memberInterface definition s includePrivate selfType).ensures acyclic here
      start).2⟩
  have built := find?_memberInterface a definition s includePrivate selfType here name
  rw [found] at built
  cases visible : definition.visible? includePrivate name with
  | none => rw [visible] at built; cases built
  | some member =>
    rw [visible] at built
    obtain ⟨pairs⟩ := built
    obtain ⟨declared, isDeclared, builds⟩ := exists_left_of_forall₂ pairs isOverload
    exact builds.isWithin acyclic start.coherent filled bound carries
      (within member (mem_of_visible? visible) declared isDeclared)

/-! ### Named types -/

/-- Binding type parameters to types of a vocabulary, all of them or with a refusal. -/
theorem within_ofLists {vars : List Name} {types : List Ty} (within : ∀ t ∈ types, t.IsWithin v)
    (otherwise : vars.length ≠ types.length → refused (.arityMismatch vars.length types.length)) :
    Outcome (fun s => (∀ q t, s.bindings.find? q = some t → t.IsWithin v) ∧
      (∀ q ∈ vars, (s.bindings.find? q).isSome) ∧ ∀ word, s.slot word = none) refused
      (Substitution.ofLists vars types) := by
  by_cases length : vars.length = types.length
  · rw [Substitution.ofLists, if_pos length]
    refine ⟨fun q t found => ?_, fun q isVar => ?_, fun _ => rfl⟩
    · exact within t (List.of_mem_zip (NameMap.mem_zip_of_find?_ofLists found)).2
    · obtain ⟨t, found⟩ := NameMap.find?_ofLists_of_mem length isVar
      exact Option.isSome_iff_exists.2 ⟨t, found⟩
  · rw [Substitution.ofLists, if_neg length]
    exact otherwise length

theorem within_instanceInterface (acyclic : a.env.arena.Acyclic) (fits : v.Fits a refused)
    {name : TypeName} {args : List Ty} (known : v.applied .ofClass name args.length)
    (within : ∀ t ∈ args, t.IsWithin v) (receiver : selfType.IsWithin v) :
    Ends (Session.OnWay a receivers) (a.instanceInterface name args includePrivate selfType)
      (Interface.IsWithin v) refused := by
  refine (Ends.ofExcept (fits.instances name _ known)).bind fun definition ⟨inside, single, other⟩ => ?_
  refine (Ends.ofExcept (within_ofLists within other)).bind fun s ⟨bound, all, _⟩ => ?_
  refine Ends.lift (within_memberInterface acyclic inside rfl bound
    (carries_replacement bound all fun word => ?_))
  cases word
  · exact receiver
  · refine Ty.isWithin_applied ?_ (Ty.isWithin_replicate_any v args.length)
    rwa [List.length_replicate]
  · exact Ty.isWithin_of_children (t := .singletonOf name) single rfl

theorem within_interfaceInterface (acyclic : a.env.arena.Acyclic) (fits : v.Fits a refused)
    {name : TypeName} {args : List Ty} (known : v.applied .ofInterface name args.length)
    (words : v.placeholder .instanceType ∧ v.placeholder .classType)
    (within : ∀ t ∈ args, t.IsWithin v) (receiver : selfType.IsWithin v) :
    Ends (Session.OnWay a receivers) (a.interfaceInterface name args includePrivate selfType)
      (Interface.IsWithin v) refused := by
  refine (Ends.ofExcept (fits.interfaces name _ known words.1 words.2)).bind
    fun definition ⟨inside, other⟩ => ?_
  refine (Ends.ofExcept (within_ofLists within other)).bind fun s ⟨bound, all, empty⟩ => ?_
  refine Ends.lift (within_memberInterface acyclic inside rfl bound
    (carries_replacement bound all fun word => ?_))
  have left : ∀ word, s.replacement.placeholder word = ⟨.placeholder word⟩ := fun word => by
    show (s.slot word).getD _ = _
    rw [empty word]
    rfl
  cases word
  · exact receiver
  · exact (left .instanceType).symm ▸ Ty.isWithin_of_children (t := .instanceType) words.1 rfl
  · exact (left .classType).symm ▸ Ty.isWithin_of_children (t := .classType) words.2 rfl

theorem within_singletonInterface (acyclic : a.env.arena.Acyclic) (fits : v.Fits a refused)
    {name : TypeName} (known : v.singleton name) (receiver : selfType.IsWithin v) :
    Ends (Session.OnWay a receivers) (a.singletonInterface name includePrivate selfType)
      (Interface.IsWithin v) refused := by
  refine (Ends.ofExcept (fits.singletons name known)).bind fun definition ⟨inside, applied⟩ => ?_
  let s : Substitution := ((Substitution.empty.fill .instanceType
    (.instanceOf name (List.replicate definition.typeParams.length .any))).fill .classType
      (.singletonOf name)).fill .selfType selfType
  have carries : s.replacement.Carries (v.withVars []).withPlaceholders v := by
    refine carries_replacement nofun nofun fun word => ?_
    cases word
    · exact receiver
    · refine Ty.isWithin_applied ?_ (Ty.isWithin_replicate_any v definition.typeParams.length)
      rwa [List.length_replicate]
    · exact Ty.isWithin_of_children (t := .singletonOf name) known rfl
  exact Ends.lift (within_memberInterface acyclic inside rfl nofun
    ⟨fun q known => carries.var q (Or.inl known), carries.placeholder, carries.singleton,
      carries.applied⟩)

theorem within_booleanInterface (acyclic : a.env.arena.Acyclic) (fits : v.Fits a refused)
    (receiver : selfType.IsWithin v) :
    Ends (Session.OnWay a receivers) (a.booleanInterface includePrivate selfType)
      (Interface.IsWithin v) refused := by
  refine (Ends.mapM_forall _ fun name isBoolean => within_instanceInterface acyclic fits
    (fits.core _ (CoreNames.mem_arities_of_mem_booleanClasses isBoolean)) (List.forall_mem_nil _)
    receiver).bind fun interfaces within => ?_
  exact Ends.pure (Interface.everywhere_joinAll fits.joins within)

/-! ### Structures -/

theorem isWithin_refinePlaces {i : Interface} (before : i.IsWithin v) {places : List (Literal × Ty)}
    (within : ∀ place ∈ places, place.2.IsWithin v) : (a.refinePlaces i places).IsWithin v := by
  have literal : ∀ value : Literal, (Ty.literal value).IsWithin v := fun value =>
    Ty.isWithin_of_children trivial rfl
  have single : ∀ types : List Ty, (∀ t ∈ types, t.IsWithin v) →
      ∀ t ∈ (Params.positional types).toList, t.IsWithin v := by
    intro types each t member
    rw [Params.toList_positional] at member
    exact each t member
  refine (before.putFirst _ fun o member => ?_).putFirst _ fun o member => ?_
  · obtain ⟨place, isPlace, rfl⟩ := List.mem_map.1 member
    refine Overload.isWithin_ofTypes (single _ ?_) (within place isPlace)
    exact List.forall_mem_singleton.2 (literal place.1)
  · obtain ⟨place, isPlace, rfl⟩ := List.mem_map.1 member
    refine Overload.isWithin_ofTypes (single _ ?_) (within place isPlace)
    exact List.forall_mem_cons.2 ⟨literal place.1, List.forall_mem_singleton.2 (within place isPlace)⟩

theorem mem_of_mem_indexed {members : List Ty} {start : Nat} {place : Literal × Ty}
    (isPlace : place ∈ indexed start members) : place.2 ∈ members := by
  induction members generalizing start with
  | nil => cases isPlace
  | cons t rest ih =>
    rcases List.mem_cons.1 isPlace with rfl | later
    · exact List.mem_cons_self
    · exact List.mem_cons_of_mem _ (ih later)

theorem within_tupleInterface (acyclic : a.env.arena.Acyclic) (fits : v.Fits a refused)
    {members : List Ty} (within : ∀ t ∈ members, t.IsWithin v) (receiver : selfType.IsWithin v) :
    Ends (Session.OnWay a receivers) (a.tupleInterface members includePrivate selfType)
      (Interface.IsWithin v) refused := by
  have element : ∀ t ∈ [Ty.union members], t.IsWithin v :=
    List.forall_mem_singleton.2 (Ty.isWithin_combine within)
  have isArray : v.applied .ofClass a.core.array 1 :=
    fits.core (a.core.array, 1) (by simp [CoreNames.arities])
  refine (within_instanceInterface acyclic fits isArray element receiver).bind fun array inside => ?_
  have place : ∀ o : Option Ty, (∀ t ∈ o, t ∈ members) → (o.getD .nil).IsWithin v := by
    intro o known
    cases o with
    | none => exact Ty.isWithin_of_children trivial rfl
    | some t => exact within t (known t rfl)
  have noParams : ∀ t ∈ (Params.empty : Params Ty).toList, t.IsWithin v := nofun
  have refined : (a.refinePlaces array (indexed 0 members)).IsWithin v :=
    isWithin_refinePlaces inside fun place isPlace => within place.2 (mem_of_mem_indexed isPlace)
  refine Ends.pure ((refined.put _ ?_).put _ ?_)
  · exact List.forall_mem_singleton.2 (Overload.isWithin_ofTypes noParams
      (place _ fun t isHead => List.mem_of_mem_head? isHead))
  · exact List.forall_mem_singleton.2 (Overload.isWithin_ofTypes noParams
      (place _ fun t isLast => List.mem_of_mem_getLast? isLast))

theorem within_recordInterface (acyclic : a.env.arena.Acyclic) (fits : v.Fits a refused)
    {fields : List (Literal × Ty)} (within : ∀ field ∈ fields, field.2.IsWithin v)
    (receiver : selfType.IsWithin v) :
    Ends (Session.OnWay a receivers) (a.recordInterface fields includePrivate selfType)
      (Interface.IsWithin v) refused := by
  have key : (Ty.union (fields.map fun field => .literal field.1)).IsWithin v := by
    refine Ty.isWithin_combine fun t member => ?_
    obtain ⟨field, _, rfl⟩ := List.mem_map.1 member
    exact Ty.isWithin_of_children trivial rfl
  have value : (Ty.union (fields.map Prod.snd)).IsWithin v := by
    refine Ty.isWithin_combine fun t member => ?_
    obtain ⟨field, isField, rfl⟩ := List.mem_map.1 member
    exact within field isField
  have args := List.forall_mem_cons.2 ⟨key, List.forall_mem_singleton.2 value⟩
  have isHash : v.applied .ofClass a.core.hash 2 := fits.core (a.core.hash, 2) (by simp [CoreNames.arities])
  exact (within_instanceInterface acyclic fits isHash args receiver).bind fun hash inside =>
    Ends.pure (isWithin_refinePlaces inside within)

theorem within_procInterface (acyclic : a.env.arena.Acyclic) (fits : v.Fits a refused)
    {params : Params Ty} {result : Ty} (within : ∀ t ∈ params.toList, t.IsWithin v)
    (within' : result.IsWithin v) (receiver : selfType.IsWithin v) :
    Ends (Session.OnWay a receivers) (a.procInterface params result includePrivate selfType)
      (Interface.IsWithin v) refused := by
  have exact' : ∀ o ∈ [Overload.ofTypes params result], o.type.IsWithin v :=
    List.forall_mem_singleton.2 (Overload.isWithin_ofTypes within within')
  have isProc : v.applied .ofClass a.core.proc 0 := fits.core (a.core.proc, 0) (by simp [CoreNames.arities])
  exact (within_instanceInterface acyclic fits isProc (List.forall_mem_nil _) receiver).bind
    fun base inside => Ends.pure ((inside.put _ exact').put _ exact')

/-! ### Following aliases -/

theorem within_unfold (acyclic : a.env.arena.Acyclic) (fits : v.FitsAliases a refused) {name : TypeName}
    {n : Nat} (known : v.applied .ofAlias name n) :
    Ends (Session.OnWay a receivers) (a.unfold name) (Ty.IsWithin v) refused :=
  Ensures.ofYields (onWay_unfold acyclic name) (fits.aliases name n known)

theorem within_expandLayer (acyclic : a.env.arena.Acyclic) (fits : v.FitsAliases a refused)
    {follow : List Ty → Ty → AnalysisM Ty}
    (next : ∀ path t, Ty.IsWithin v t →
      Ends (Session.OnWay a receivers) (follow path t) (Ty.IsWithin v) refused)
    (path : List Ty) {t : Ty} (within : t.IsWithin v) :
    Ends (Session.OnWay a receivers) (Ty.recurse (a.expandLayer follow path) t) (Ty.IsWithin v)
      refused := by
  refine Ty.recurse_spec (P := fun t x => t.IsWithin v →
    Ends (Session.OnWay a receivers) x (Ty.IsWithin v) refused) (fun s f each within => ?_) t within
  cases s with
  | applied head name args =>
    cases head with
    | ofAlias =>
      refine Ends.guarded (fun _ => fits.recursiveAlias _) fun _ => ?_
      exact (within_unfold acyclic fits within.allows).bind fun body inside => next _ body inside
    | _ => exact Ends.pure within
  | compound connective members =>
    cases connective with
    | union =>
      have parts : ∀ x ∈ members.map f, Ends (Session.OnWay a receivers) (id x) (Ty.IsWithin v)
          refused := by
        intro x member
        obtain ⟨u, isMember, rfl⟩ := List.mem_map.1 member
        exact each u isMember (within.of_mem_children isMember)
      refine (Ends.mapM_forall _ parts).bind fun us inside => ?_
      exact Ends.pure (Ty.isWithin_combine inside)
    | intersection => exact Ends.pure within
  | _ => exact Ends.pure within

theorem within_expandDeep (acyclic : a.env.arena.Acyclic) (fits : v.FitsAliases a refused) {t : Ty}
    (within : t.IsWithin v) :
    Ends (Session.OnWay a receivers) (a.expandDeep t) (Ty.IsWithin v) refused := by
  suffices atBound : ∀ bound path t, Ty.IsWithin v t →
      Ends (Session.OnWay a receivers) (a.expandWithin bound path t) (Ty.IsWithin v) refused from
    atBound _ [] t within
  intro bound
  induction bound with
  | zero =>
    exact fun path t => within_expandLayer acyclic fits
      (fun _ _ _ => Ends.throw (fits.recursiveAlias _)) path
  | succ bound ih => exact fun path t => within_expandLayer acyclic fits ih path

/-- **What an alias is expanded to** can be taken as a receiver where the alias can. -/
theorem receives_expandDeep (acyclic : a.env.arena.Acyclic) (fits : v.Fits a refused) {name : TypeName}
    {args : List Ty} (receives : v.Receives a.env selfType (.aliasOf name args)) :
    Ends (Session.OnWay a receivers) (a.expandDeep (.aliasOf name args))
      (v.Receives a.env selfType) refused := by
  refine ((within_expandDeep acyclic fits.toFitsAliases receives.within).and
    (expandDeep_ends acyclic selfType _)).imp (fun expanded ⟨within, expands⟩ => ⟨within, ?_⟩)
    fun _ both => both.1
  intro name' args' reached
  exact receives.interfaces name' args'
    (expands.reaches (u := .interfaceOf name' args') ⟨name, args, rfl⟩ rfl nofun
      reached).to_reflTransGen

/-! ### Any type -/

theorem within_receiverLayer (acyclic : a.env.arena.Acyclic) (fits : v.Fits a refused)
    {follow : Ty → Ty → AnalysisM Interface}
    (next : ∀ receivers selfType t, Ty.IsWithin v selfType → v.Receives a.env selfType t →
      Ends (Session.OnWay a receivers) (follow selfType t) (Interface.IsWithin v) refused)
    (receiver : selfType.IsWithin v) {t : Ty} (receives : v.Receives a.env selfType t) :
    Ends (Session.OnWay a receivers) (Ty.recurse (a.receiverLayer includePrivate follow selfType) t)
      (Interface.IsWithin v) refused := by
  refine Ty.recurse_spec (P := fun t x => v.Receives a.env selfType t →
    Ends (Session.OnWay a receivers) x (Interface.IsWithin v) refused) (fun s f each receives => ?_)
    t receives
  have children : ∀ u ∈ s.toList, u.IsWithin v := fun u isChild =>
    receives.within.of_mem_children isChild
  have plain : ∀ {name : TypeName}, (name, 0) ∈ a.core.arities →
      Ends (Session.OnWay a receivers) (a.instanceInterface name [] includePrivate selfType)
        (Interface.IsWithin v) refused := fun isCore =>
    within_instanceInterface acyclic fits (fits.core _ isCore) (List.forall_mem_nil _) receiver
  cases s with
  | base word =>
    cases word with
    | nil => exact plain (by simp [CoreNames.arities])
    | boolean => exact within_booleanInterface acyclic fits receiver
    | _ => exact Ends.throw (fits.invalidReceiver _)
  | placeholder word =>
    cases word with
    | selfType =>
      refine ends_receiverLayer_self fits.selfWithoutReceiver (next _ _ _ receives.within ⟨receiver, ?_⟩)
      intro name args reached
      exact receives.interfaces name args
        (Relation.ReflTransGen.head Environment.Step.ofSelf (Environment.reaches_of_self reached))
    | _ => exact Ends.throw (fits.invalidReceiver _)
  | var name => exact Ends.throw (fits.invalidReceiver _)
  | literal value => exact plain (a.core.literalOwner_mem_arities value)
  | logic evidence => exact within_booleanInterface acyclic fits receiver
  | singleton name => exact within_singletonInterface acyclic fits receives.within.allows receiver
  | applied head name args =>
    cases head with
    | ofClass => exact within_instanceInterface acyclic fits receives.within.allows children receiver
    | ofInterface =>
      exact within_interfaceInterface acyclic fits receives.within.allows
        (receives.interfaces name args Relation.ReflTransGen.refl) children receiver
    | ofAlias =>
      exact ends_receiverLayer_alias (fun _ => fits.recursiveAlias _)
        (receives_expandDeep acyclic fits receives)
        fun _ expanded receives => next _ _ _ receiver receives
  | compound connective members =>
    have parts : ∀ x ∈ members.map f, Ends (Session.OnWay a receivers) (id x) (Interface.IsWithin v)
        refused := by
      intro x member
      obtain ⟨u, isMember, rfl⟩ := List.mem_map.1 member
      refine each u isMember ⟨children u isMember, fun name args reached => ?_⟩
      exact receives.interfaces name args
        (Relation.ReflTransGen.head (Environment.Step.ofMember isMember) reached)
    cases connective with
    | union =>
      exact (Ends.mapM_forall _ parts).bind fun interfaces within =>
        Ends.pure (Interface.everywhere_joinAll fits.joins within)
    | intersection =>
      exact (Ends.mapM_forall _ parts).bind fun interfaces within =>
        Ends.pure (Interface.everywhere_mergeAll within)
  | tuple members => exact within_tupleInterface acyclic fits children receiver
  | record fields =>
    exact within_recordInterface acyclic fits
      (fun field isField => children field.2 (List.mem_map_of_mem isField)) receiver
  | proc params result =>
    exact within_procInterface acyclic fits
      (fun t member => children t (List.mem_append_left _ member))
      (children result (List.mem_append_right _ List.mem_cons_self)) receiver

/-- **Every overload of an interface is within a vocabulary** if the type and the receiver are and what is
declared fits it; a refusal is as the vocabulary allows. -/
theorem within_interfaceFor (acyclic : a.env.arena.Acyclic) (fits : v.Fits a refused)
    (receiver : selfType.IsWithin v) {t : Ty} (receives : v.Receives a.env selfType t) :
    Ends (Session.OnWay a receivers) (a.interfaceFor t includePrivate selfType)
      (Interface.IsWithin v) refused := by
  suffices atBound : ∀ bound receivers selfType t, Ty.IsWithin v selfType →
      v.Receives a.env selfType t →
        Ends (Session.OnWay a receivers) (a.interfaceWithin includePrivate bound selfType t)
          (Interface.IsWithin v) refused from atBound _ receivers selfType t receiver receives
  intro bound
  induction bound with
  | zero =>
    intro receivers selfType t receiver receives
    exact within_receiverLayer acyclic fits (fun _ _ _ _ _ => Ends.throw (fits.recursiveAlias _))
      receiver receives
  | succ bound ih =>
    intro receivers selfType t receiver receives
    exact within_receiverLayer acyclic fits ih receiver receives

end Analysis

end SignatureAlgebra
