/-
**Members for a receiver whose variables get other names.**

Members are instantiated by one substitution on either side: with the arguments of a type and a receiver,
and with the respelled ones. If a method involves neither the variables nor their other names, other than as
type parameters of the owner, then its overloads on one side are the respelled ones of the other side.
Whatever it involves, there are as many.

* `Ty.involved` — the variables of a type and their other names; `Respelling` — what is assumed of them.
* `DeclaredOverload.KeepsApart`, `Definition.KeepsApart` — overloads and methods that involve none of some
  names.
* `Substitution.Respells` — the two substitutions; `Analysis.Builds.respelled` — one overload.
* `Interface.Respells` — what is known of the two interfaces of a type.
* `Analysis.respells_instanceInterface`, `Analysis.respells_tupleInterface` and so on — types of one form.
-/
import SignatureAlgebra.Proofs.Analysis.Parallel
import SignatureAlgebra.Proofs.Analysis.RespelledOverloads

namespace SignatureAlgebra

/-! ### The names that are involved -/

/-- The variables of a type and the other names they get. -/
def Ty.involved (f : Name → Name) (t : Ty) : List Name := t.freeVars ++ t.freeVars.map f

/-- All names but the other names of variables, unless they are variables themselves. -/
def Ty.untouched (f : Name → Name) (t : Ty) : Set Name := {x | x ∈ t.involved f → x ∈ t.freeVars}

/-- **Other names for the variables of a type**, one name each, and for nothing else. -/
structure Respelling (root : Ty) (f : Name → Name) : Prop where
  fixes : ∀ x, x ∉ root.freeVars → f x = x
  injective : Set.InjOn f {x | x ∈ root.freeVars}

namespace Respelling

variable {root : Ty} {f : Name → Name}

/-- Different names stay different, also those of other variables. -/
theorem injOn_untouched (respelling : Respelling root f) : Set.InjOn f (root.untouched f) := by
  have moved : ∀ x y, x ∈ root.freeVars → y ∈ root.untouched f → y ∉ root.freeVars → f x ≠ f y := by
    intro x y isVar isKnown other same
    rw [respelling.fixes y other] at same
    exact other (isKnown (List.mem_append_right _ (List.mem_map.2 ⟨x, isVar, same⟩)))
  intro x isKnown y isKnown' same
  by_cases isVar : x ∈ root.freeVars <;> by_cases isVar' : y ∈ root.freeVars
  · exact respelling.injective isVar isVar' same
  · exact absurd same (moved x y isVar isKnown' isVar')
  · exact absurd same.symm (moved y x isVar' isKnown isVar)
  · rwa [respelling.fixes x isVar, respelling.fixes y isVar'] at same

theorem freeVars_subset_untouched : {x | x ∈ root.freeVars} ⊆ root.untouched f := fun _ isVar _ => isVar

theorem mem_untouched {x : Name} (free : x ∉ root.involved f) : x ∈ root.untouched f :=
  fun involved => absurd involved free

theorem fixes_of_free (respelling : Respelling root f) {x : Name} (free : x ∉ root.involved f) :
    f x = x := respelling.fixes x fun isVar => free (List.mem_append_left _ isVar)

theorem respelled_var (respelling : Respelling root f) {x : Name} (free : x ∉ root.involved f) :
    Ty.Respelled f (root.untouched f) (.var x) (.var x) :=
  ⟨congrArg Ty.var (respelling.fixes_of_free free).symm,
    Ty.isWithin_of_children (t := .var x) (mem_untouched free) rfl⟩

/-- A type none of whose variables is involved. -/
theorem respelled_of_free (respelling : Respelling root f) {t : Ty} (normal : t.IsNormal)
    (free : ∀ x ∈ t.freeVars, x ∉ root.involved f) : Ty.Respelled f (root.untouched f) t t :=
  ⟨(Ty.respell_eq_self normal fun x occurs => respelling.fixes_of_free (free x occurs)).symm,
    Ty.isWithin_over_iff.2 ⟨normal, fun x occurs => mem_untouched (free x occurs)⟩⟩

end Respelling

/-- A declared overload involves none of some names, other than as type parameters that are replaced. -/
def DeclaredOverload.KeepsApart (arena : Arena) (declared : DeclaredOverload)
    (replaced involved : List Name) : Prop :=
  (∀ q ∈ declared.signature.typeParams, q ∉ involved) ∧
    ∀ t ∈ (arena.methodType declared.signature).types, ∀ x ∈ t.freeVars, x ∈ involved → x ∈ replaced

instance (arena : Arena) (declared : DeclaredOverload) (replaced involved : List Name) :
    Decidable (declared.KeepsApart arena replaced involved) :=
  inferInstanceAs (Decidable ((∀ q ∈ declared.signature.typeParams, q ∉ involved) ∧
    ∀ t ∈ (arena.methodType declared.signature).types, ∀ x ∈ t.freeVars, x ∈ involved → x ∈ replaced))

/-- **For a method, a definition involves none of some names**, other than as type parameters that are
replaced. -/
def Definition.KeepsApart (arena : Arena) (d : Definition) (replaced : List Name) (name : Name)
    (involved : List Name) : Prop :=
  ∀ member ∈ d.members, member.name = name → ∀ declared ∈ member.overloads,
    declared.KeepsApart arena replaced involved

instance (arena : Arena) (d : Definition) (replaced : List Name) (name : Name) (involved : List Name) :
    Decidable (d.KeepsApart arena replaced name involved) :=
  inferInstanceAs (Decidable (∀ member ∈ d.members, member.name = name → ∀ declared ∈ member.overloads,
    declared.KeepsApart arena replaced involved))

/-- **Two substitutions, of which the second puts respelled types in place of names.** -/
structure Substitution.Respells (root : Ty) (f : Name → Name) (replaced : List Name)
    (s s' : Substitution) : Prop where
  normal : s.replacement.IsNormal
  var : ∀ x, (x ∈ root.involved f → x ∈ replaced) →
    Ty.Respelled f (root.untouched f) (s.replacement.var x) (s'.replacement.var x)
  placeholder : ∀ word, Ty.Respelled f (root.untouched f) (s.replacement.placeholder word)
    (s'.replacement.placeholder word)

namespace Analysis

variable {a : Analysis} {root : Ty} {f : Name → Name}

/-! ### One overload -/

theorem respell_withEvidence (f : Name → Name) (name : Name) (o : Overload) :
    (a.withEvidence name o).respell f = a.withEvidence name (o.respell f) := by
  cases found : o.origin.bind (a.predicateEvidence? name) with
  | none => rw [withEvidence_of_none found, withEvidence_of_none (o := o.respell f) found]
  | some evidence =>
    rw [withEvidence_of_some found, withEvidence_of_some (o := o.respell f) found]
    rfl

theorem isOver_withEvidence {names : Set Name} {o : Overload} (name : Name)
    (within : o.type.IsOver names) : (a.withEvidence name o).type.IsOver names := by
  unfold withEvidence
  split
  · intro t isType
    rcases MethodType.mem_types.1 isType with isParam | isBlock | rfl
    · exact within t (MethodType.mem_types.2 (Or.inl isParam))
    · exact within t (MethodType.mem_types.2 (Or.inr (Or.inl isBlock)))
    · exact Ty.isWithin_of_children trivial rfl
  · exact within

/-- **A declared type on both sides**: what it becomes on one side is respelled on the other. -/
theorem respelled_replace {replaced : List Name} {s s' : Substitution}
    (respells : s.Respells root f replaced s') {t : Ty} (normal : t.IsNormal)
    (apart : ∀ x ∈ t.freeVars, x ∈ root.involved f → x ∈ replaced) :
    Ty.Respelled f (root.untouched f) (t.replace s.replacement) (t.replace s'.replacement) := by
  constructor
  · rw [Ty.respell, Ty.replace_replace_of_solid respells.normal (Replacement.isNormal_ofVars f)
      (Replacement.isSolid_ofVars f) normal]
    refine Ty.replace_congr (fun x occurs => ?_) (fun word _ => ?_) rfl rfl
    · exact (respells.var x (apart x (Ty.mem_freeVars.2 occurs))).1
    · exact (respells.placeholder word).1
  · have within : t.IsWithin (.over {x | x ∈ root.involved f → x ∈ replaced}) :=
      Ty.isWithin_over_iff.2 ⟨normal, apart⟩
    exact Ty.isWithin_replace ⟨fun x known => (respells.var x known).2,
      fun word _ => (respells.placeholder word).2, fun _ _ => trivial, fun _ _ _ _ => trivial⟩ within

/-- **An overload on both sides**, built of a declared one that involves none of the names. -/
theorem Builds.respelled (acyclic : a.env.arena.Acyclic) {here later here' later' : Session}
    (coherent : here.Coherent a) (coherent' : here'.Coherent a) {replaced : List Name}
    {s s' : Substitution} {selfType selfType' u u' : Ty} (filled : s.slot .selfType = some u)
    (filled' : s'.slot .selfType = some u') (known : ∀ x ∈ selfType.freeVars, x ∈ root.involved f)
    (known' : ∀ x ∈ selfType'.freeVars, x ∈ root.involved f) (respells : s.Respells root f replaced s')
    {name : Name} {declared : DeclaredOverload}
    (apart : declared.KeepsApart a.env.arena replaced (root.involved f)) {o o' : Overload}
    (builds : a.Builds s selfType name here later declared o)
    (builds' : a.Builds s' selfType' name here' later' declared o') :
    Overload.Respelled f (root.untouched f) o o' := by
  obtain ⟨own, free⟩ := apart
  have each : ∀ t ∈ (a.env.arena.methodType declared.signature).types,
      Ty.Respelled f (root.untouched f) (t.replace s.replacement) (t.replace s'.replacement) :=
    fun t isType => respelled_replace respells (isNormal_methodType _ declared.signature t isType)
      (free t isType)
  rw [builds.eq_of_free acyclic coherent filled fun q isOwn occurs => own q isOwn (known q occurs),
    builds'.eq_of_free acyclic coherent' filled' fun q isOwn occurs => own q isOwn (known' q occurs)]
  constructor
  · rw [respell_withEvidence]
    refine congrArg (fun type => a.withEvidence name ⟨type, some declared.origin⟩) ?_
    exact ((a.env.arena.methodType declared.signature).replace_replace
      fun t isType => (each t isType).1.symm).symm
  · refine isOver_withEvidence name fun t isType => ?_
    rw [MethodType.types_replace] at isType
    obtain ⟨u, isDeclared, rfl⟩ := List.mem_map.1 isType
    exact (each u isDeclared).2

/-! ### The members of a definition -/

end Analysis

/-- **What is known of the interfaces of a type and of the respelled one**: in every method as many overloads,
and for the methods for which `P` holds respelled ones. -/
def Interface.Respells (root : Ty) (f : Name → Name) (P : Name → Prop) (i i' : Interface) : Prop :=
  ∀ name, Interface.Matches (fun o o' => P name → Overload.Respelled f (root.untouched f) o o') name i i'

theorem Definition.name_of_visible? {d : Definition} {includePrivate : Bool} {name : Name}
    {member : Member} (found : d.visible? includePrivate name = some member) : member.name = name := by
  simpa using List.find?_some found

/-- The receiver on both sides. -/
abbrev Ty.IsReceiver (root : Ty) (f : Name → Name) (selfType selfType' : Ty) : Prop :=
  Ty.Respelled f {x | x ∈ root.freeVars} selfType selfType'

namespace Ty.IsReceiver

variable {root selfType selfType' : Ty} {f : Name → Name}

theorem mem_involved (receiver : root.IsReceiver f selfType selfType') {x : Name}
    (occurs : x ∈ selfType.freeVars) : x ∈ root.involved f :=
  List.mem_append_left _ ((Ty.isWithin_over_iff.1 receiver.2).2 x occurs)

theorem mem_involved' (receiver : root.IsReceiver f selfType selfType') {x : Name}
    (occurs : x ∈ selfType'.freeVars) : x ∈ root.involved f := by
  obtain ⟨rfl, within⟩ := receiver
  obtain ⟨y, isVar, rfl⟩ := (Ty.isWithin_over_iff.1 (Ty.isWithin_respell f within)).2 x occurs
  exact List.mem_append_right _ (List.mem_map_of_mem isVar)

theorem respelled (receiver : root.IsReceiver f selfType selfType') :
    Ty.Respelled f (root.untouched f) selfType selfType' :=
  ⟨receiver.1, receiver.2.over_mono Respelling.freeVars_subset_untouched⟩

end Ty.IsReceiver

namespace Analysis

variable {a : Analysis} {root : Ty} {f : Name → Name} {receivers receivers' : List Ty}
  {selfType selfType' : Ty} {includePrivate : Bool} {P : Name → Prop}

theorem respells_memberInterface (acyclic : a.env.arena.Acyclic)
    (receiver : root.IsReceiver f selfType selfType') {d : Definition} {replaced : List Name}
    {s s' : Substitution} {u u' : Ty} (filled : s.slot .selfType = some u)
    (filled' : s'.slot .selfType = some u')
    (respells : ∀ name, P name → s.Respells root f replaced s')
    (apart : ∀ name, P name → d.KeepsApart a.env.arena replaced name (root.involved f)) :
    Parallel (Session.OnWay a receivers) (Session.OnWay a receivers')
      (liftM (a.memberInterface d s includePrivate selfType))
      (liftM (a.memberInterface d s' includePrivate selfType')) (Interface.Respells root f P) := by
  refine Lockstep.lift fun here here' start start' => ⟨fun name => ?_, ?_, ?_⟩
  · refine (find?_memberInterface a d s includePrivate selfType here name).related
      (find?_memberInterface a d s' includePrivate selfType' here' name)
      fun member found declared isDeclared o o' builds builds' holds => ?_
    have free := apart name holds member (mem_of_visible? found) (Definition.name_of_visible? found)
      declared isDeclared
    exact builds.respelled acyclic start.coherent start'.coherent filled filled'
      (fun _ => receiver.mem_involved) (fun _ => receiver.mem_involved') (respells name holds) free
      builds'
  · exact (((pervades_transparent a).memberInterface d s includePrivate selfType).ensures acyclic here
      start).2
  · exact (((pervades_transparent a).memberInterface d s' includePrivate selfType').ensures acyclic here'
      start').2

/-! ### Named types -/

/-- Type parameters that are replaced by arguments and by the respelled ones. -/
theorem respelled_ofLists (respelling : Respelling root f) {typeParams : List Name} {args args' : List Ty}
    (length : typeParams.length = args.length)
    (pairs : List.Forall₂ (Ty.Respelled f (root.untouched f)) args args') {x : Name}
    (known : x ∈ root.involved f → x ∈ typeParams) :
    Ty.Respelled f (root.untouched f) (((NameMap.ofLists typeParams args).find? x).getD (.var x))
      (((NameMap.ofLists typeParams args').find? x).getD (.var x)) := by
  obtain ⟨rfl, within⟩ := forall₂_eq_map_iff.1 pairs
  rw [NameMap.find?_ofLists_map]
  cases found : (NameMap.ofLists typeParams args).find? x with
  | some arg =>
    exact ⟨rfl, within arg (List.of_mem_zip (NameMap.mem_zip_of_find?_ofLists found)).2⟩
  | none =>
    have free : x ∉ root.involved f := fun involved => by
      obtain ⟨_, bound⟩ := NameMap.find?_ofLists_of_mem length (known involved)
      rw [found] at bound
      cases bound
    exact respelling.respelled_var free

/-- Two substitutions that replace type parameters by arguments and by the respelled ones. -/
theorem respells_of_bindings (respelling : Respelling root f) {s s' : Substitution}
    {typeParams : List Name} {args args' : List Ty} (length : typeParams.length = args.length)
    (pairs : List.Forall₂ (Ty.Respelled f (root.untouched f)) args args')
    (bindings : s.bindings = .ofLists typeParams args)
    (bindings' : s'.bindings = .ofLists typeParams args')
    (words : ∀ word, Ty.Respelled f (root.untouched f) (s.replacement.placeholder word)
      (s'.replacement.placeholder word)) : s.Respells root f typeParams s' where
  normal := by
    refine ⟨fun x => ?_, fun word => (Ty.isWithin_over_iff.1 (words word).2).1⟩
    show ((s.bindings.find? x).getD (.var x)).IsNormal
    rw [bindings]
    cases found : (NameMap.ofLists typeParams args).find? x with
    | none => exact Replacement.isNormal_identity.var x
    | some arg =>
      have isArg : arg ∈ args := (List.of_mem_zip (NameMap.mem_zip_of_find?_ofLists found)).2
      exact (Ty.isWithin_over_iff.1 ((forall₂_eq_map_iff.1 pairs).2 arg isArg)).1
  var x known := by
    show Ty.Respelled f _ ((s.bindings.find? x).getD (.var x)) ((s'.bindings.find? x).getD (.var x))
    rw [bindings, bindings']
    exact respelled_ofLists respelling length pairs known
  placeholder := words

/-- Binding type parameters succeeds on both sides or on none. -/
theorem outcomes_ofLists (vars : List Name) {args args' : List Ty} (same : args.length = args'.length) :
    Outcomes (fun s s' => vars.length = args.length ∧ s = ⟨.ofLists vars args, fun _ => none⟩ ∧
        s' = ⟨.ofLists vars args', fun _ => none⟩) (fun _ _ => True)
      (Substitution.ofLists vars args) (Substitution.ofLists vars args') := by
  rw [Substitution.ofLists, Substitution.ofLists, ← same]
  by_cases length : vars.length = args.length
  · rw [if_pos length, if_pos length]
    exact ⟨length, rfl, rfl⟩
  · rw [if_neg length, if_neg length]
    exact trivial

/-- What stands for the instances of a class has no variables. -/
theorem respelled_untyped {names : Set Name} (name : TypeName) (n : Nat) :
    Ty.Respelled f names (.instanceOf name (List.replicate n .any))
      (.instanceOf name (List.replicate n .any)) := by
  refine ⟨?_, Ty.isWithin_applied trivial (Ty.isWithin_replicate_any _ n)⟩
  rw [Ty.respell, Ty.replace_node]
  show _ = Ty.instanceOf name ((List.replicate n Ty.any).map _)
  rw [List.map_replicate]
  rfl

theorem respells_instanceInterface (acyclic : a.env.arena.Acyclic) (respelling : Respelling root f)
    (receiver : root.IsReceiver f selfType selfType') {name : TypeName} {args args' : List Ty}
    (apart : ∀ d, a.env.instanceDefinition name = .ok d → ∀ method, P method →
      d.KeepsApart a.env.arena d.typeParams method (root.involved f)) {settled : Prop}
    (settles : ∀ method, P method → settled)
    (pairs : List.Forall₂ (fun t t' => settled → Ty.Respelled f (root.untouched f) t t') args args') :
    Parallel (Session.OnWay a receivers) (Session.OnWay a receivers')
      (a.instanceInterface name args includePrivate selfType)
      (a.instanceInterface name args' includePrivate selfType') (Interface.Respells root f P) := by
  refine (Lockstep.ofExcept (Outcomes.self (fun _ => trivial) (a.env.instanceDefinition name))).bind
    fun d _ ⟨rfl, declared⟩ => ?_
  refine (Lockstep.ofExcept (outcomes_ofLists d.typeParams pairs.length_eq)).bind
    fun s s' bound => ?_
  obtain ⟨length, rfl, rfl⟩ := bound
  refine respells_memberInterface acyclic receiver rfl rfl (fun method holds => ?_) (apart d declared)
  have respelled := pairs.imp fun _ _ each => each (settles method holds)
  refine respells_of_bindings respelling length respelled rfl rfl fun word => ?_
  cases word with
  | selfType => exact receiver.respelled
  | classType => exact ⟨rfl, Ty.isWithin_of_children (t := .singletonOf name) trivial rfl⟩
  | instanceType =>
    show Ty.Respelled f _ (.instanceOf name (List.replicate args.length .any))
      (.instanceOf name (List.replicate args'.length .any))
    rw [← pairs.length_eq]
    exact respelled_untyped name args.length

theorem respells_interfaceInterface (acyclic : a.env.arena.Acyclic) (respelling : Respelling root f)
    (receiver : root.IsReceiver f selfType selfType') {name : TypeName} {args args' : List Ty}
    (apart : ∀ d, a.env.interfaceDefinition name = .ok d → ∀ method, P method →
      d.KeepsApart a.env.arena d.typeParams method (root.involved f)) {settled : Prop}
    (settles : ∀ method, P method → settled)
    (pairs : List.Forall₂ (fun t t' => settled → Ty.Respelled f (root.untouched f) t t') args args') :
    Parallel (Session.OnWay a receivers) (Session.OnWay a receivers')
      (a.interfaceInterface name args includePrivate selfType)
      (a.interfaceInterface name args' includePrivate selfType') (Interface.Respells root f P) := by
  refine (Lockstep.ofExcept (Outcomes.self (fun _ => trivial) (a.env.interfaceDefinition name))).bind
    fun d _ ⟨rfl, declared⟩ => ?_
  refine (Lockstep.ofExcept (outcomes_ofLists d.typeParams pairs.length_eq)).bind
    fun s s' bound => ?_
  obtain ⟨length, rfl, rfl⟩ := bound
  refine respells_memberInterface acyclic receiver rfl rfl (fun method holds => ?_) (apart d declared)
  have respelled := pairs.imp fun _ _ each => each (settles method holds)
  refine respells_of_bindings respelling length respelled rfl rfl fun word => ?_
  cases word with
  | selfType => exact receiver.respelled
  | _ => exact ⟨rfl, Ty.isWithin_of_children trivial rfl⟩

theorem respells_singletonInterface (acyclic : a.env.arena.Acyclic) (respelling : Respelling root f)
    (receiver : root.IsReceiver f selfType selfType') {name : TypeName}
    (apart : ∀ d, a.env.singletonDefinition name = .ok d → ∀ method, P method →
      d.KeepsApart a.env.arena [] method (root.involved f)) :
    Parallel (Session.OnWay a receivers) (Session.OnWay a receivers')
      (a.singletonInterface name includePrivate selfType)
      (a.singletonInterface name includePrivate selfType') (Interface.Respells root f P) := by
  refine (Lockstep.ofExcept (Outcomes.self (fun _ => trivial) (a.env.singletonDefinition name))).bind
    fun d _ ⟨rfl, declared⟩ => ?_
  refine respells_memberInterface acyclic receiver rfl rfl (fun method holds => ?_) (apart d declared)
  have nothing : ([] : List Name).length = ([] : List Ty).length := rfl
  refine respells_of_bindings respelling nothing .nil rfl rfl fun word => ?_
  cases word with
  | selfType => exact receiver.respelled
  | classType => exact ⟨rfl, Ty.isWithin_of_children (t := .singletonOf name) trivial rfl⟩
  | instanceType => exact respelled_untyped name d.typeParams.length

/-! ### Structures -/

/-- Overloads that no declaration gave. -/
theorem respelled_ofTypes {names : Set Name} {params params' : Params Ty} {result result' : Ty}
    (same : params' = params.map (Ty.respell f)) (within : ∀ t ∈ params.toList, t.IsWithin (.over names))
    (respelled : Ty.Respelled f names result result') :
    Overload.Respelled f names (.ofTypes params result) (.ofTypes params' result') := by
  obtain ⟨rfl, within'⟩ := respelled
  subst same
  refine ⟨rfl, fun t isType => ?_⟩
  rcases MethodType.mem_types.1 isType with isParam | ⟨_, none, _⟩ | rfl
  · exact within t isParam
  · cases none
  · exact within'

theorem respelled_ofTypes_positional {names : Set Name} {ts ts' : List Ty} {result result' : Ty}
    (pairs : List.Forall₂ (Ty.Respelled f names) ts ts') (respelled : Ty.Respelled f names result result') :
    Overload.Respelled f names (.ofTypes (.positional ts) result) (.ofTypes (.positional ts') result') := by
  obtain ⟨rfl, within⟩ := forall₂_eq_map_iff.1 pairs
  refine respelled_ofTypes rfl (fun t isParam => within t ?_) respelled
  rwa [Params.toList_positional] at isParam

/-- The places of a structure on both sides: under the same keys, and respelled. -/
def PlaceRespells (root : Ty) (f : Name → Name) (settled : Prop) (place place' : Literal × Ty) : Prop :=
  place'.1 = place.1 ∧ (settled → Ty.Respelled f (root.untouched f) place.2 place'.2)

theorem placeRespells_indexed {settled : Prop} {members members' : List Ty}
    (pairs : List.Forall₂ (fun t t' => settled → Ty.Respelled f (root.untouched f) t t') members
      members') (start : Nat) :
    List.Forall₂ (PlaceRespells root f settled) (indexed start members) (indexed start members') := by
  induction pairs generalizing start with
  | nil => exact .nil
  | cons here _ ih => exact .cons ⟨rfl, here⟩ (ih (start + 1))

/-- The overloads of reading and of writing one place. -/
theorem respells_refinePlaces {settled : Prop} (settles : ∀ method, P method → settled)
    {places places' : List (Literal × Ty)}
    (pairs : List.Forall₂ (PlaceRespells root f settled) places places') {i i' : Interface}
    (respells : Interface.Respells root f P i i') :
    Interface.Respells root f P (a.refinePlaces i places) (a.refinePlaces i' places') := by
  intro method
  have literal : ∀ value : Literal, Ty.Respelled f (root.untouched f) (.literal value) (.literal value) :=
    fun value => ⟨rfl, Ty.isWithin_of_children (t := .literal value) trivial rfl⟩
  refine ((respells method).putFirst _ ?_).putFirst _ ?_
  · refine List.forall₂_map_left_iff.2 (List.forall₂_map_right_iff.2 (pairs.imp ?_))
    rintro ⟨key, t⟩ ⟨_, t'⟩ ⟨rfl, each⟩ holds
    exact respelled_ofTypes_positional (.cons (literal _) .nil) (each (settles method holds))
  · refine List.forall₂_map_left_iff.2 (List.forall₂_map_right_iff.2 (pairs.imp ?_))
    rintro ⟨key, t⟩ ⟨_, t'⟩ ⟨rfl, each⟩ holds
    have respelled := each (settles method holds)
    exact respelled_ofTypes_positional (.cons (literal _) (.cons respelled .nil)) respelled

theorem rel_head? {R : Ty → Ty → Prop} {ts ts' : List Ty} (pairs : List.Forall₂ R ts ts') :
    Option.Rel R ts.head? ts'.head? := by
  cases pairs with
  | nil => exact .none
  | cons here _ => exact .some here

/-- One end of a tuple. -/
theorem respelled_end {settled : Prop} {t? t'? : Option Ty}
    (related : Option.Rel (fun t t' => settled → Ty.Respelled f (root.untouched f) t t') t? t'?)
    (settles : ∀ method, P method → settled) (method : Name) :
    List.Forall₂ (fun o o' => P method → Overload.Respelled f (root.untouched f) o o')
      [.ofTypes .empty (t?.getD .nil)] [.ofTypes .empty (t'?.getD .nil)] := by
  refine .cons (fun holds => ?_) .nil
  have nil : settled → Ty.Respelled f (root.untouched f) .nil .nil := fun _ =>
    ⟨rfl, Ty.isWithin_of_children (t := .nil) trivial rfl⟩
  exact respelled_ofTypes rfl nofun (related.getD nil (settles method holds))

theorem respells_tupleInterface (acyclic : a.env.arena.Acyclic) (respelling : Respelling root f)
    (receiver : root.IsReceiver f selfType selfType')
    (apart : ∀ d, a.env.instanceDefinition a.core.array = .ok d → ∀ method, P method →
      d.KeepsApart a.env.arena d.typeParams method (root.involved f)) {settled : Prop}
    (settles : ∀ method, P method → settled) {members members' : List Ty}
    (pairs : List.Forall₂ (fun t t' => settled → Ty.Respelled f (root.untouched f) t t') members
      members') :
    Parallel (Session.OnWay a receivers) (Session.OnWay a receivers')
      (a.tupleInterface members includePrivate selfType)
      (a.tupleInterface members' includePrivate selfType') (Interface.Respells root f P) := by
  have element : settled → Ty.Respelled f (root.untouched f) (.union members) (.union members') :=
    fun holds => Ty.respelled_combine (pairs.imp fun _ _ each => each holds)
  refine (respells_instanceInterface acyclic respelling receiver apart settles
    (.cons element .nil)).bind fun array array' respells => Lockstep.pure fun method => ?_
  have refined := respells_refinePlaces (a := a) settles (placeRespells_indexed pairs 0) respells
  have last := rel_head? (List.rel_reverse pairs)
  rw [List.head?_reverse, List.head?_reverse] at last
  exact ((refined method).put _ (respelled_end (rel_head? pairs) settles method)).put _
    (respelled_end last settles method)

theorem respells_recordInterface (acyclic : a.env.arena.Acyclic) (respelling : Respelling root f)
    (receiver : root.IsReceiver f selfType selfType')
    (apart : ∀ d, a.env.instanceDefinition a.core.hash = .ok d → ∀ method, P method →
      d.KeepsApart a.env.arena d.typeParams method (root.involved f)) {settled : Prop}
    (settles : ∀ method, P method → settled) {fields fields' : List (Literal × Ty)}
    (pairs : List.Forall₂ (PlaceRespells root f settled) fields fields') :
    Parallel (Session.OnWay a receivers) (Session.OnWay a receivers')
      (a.recordInterface fields includePrivate selfType)
      (a.recordInterface fields' includePrivate selfType') (Interface.Respells root f P) := by
  have key : settled → Ty.Respelled f (root.untouched f)
      (.union (fields.map fun field => .literal field.1))
      (.union (fields'.map fun field => .literal field.1)) := fun _ => by
    refine Ty.respelled_combine (List.forall₂_map_left_iff.2 (List.forall₂_map_right_iff.2
      (pairs.imp fun field field' same => ?_)))
    rw [same.1]
    exact ⟨rfl, Ty.isWithin_of_children (t := .literal field.1) trivial rfl⟩
  have value : settled → Ty.Respelled f (root.untouched f) (.union (fields.map Prod.snd))
      (.union (fields'.map Prod.snd)) := fun holds =>
    Ty.respelled_combine (List.forall₂_map_left_iff.2 (List.forall₂_map_right_iff.2
      (pairs.imp fun _ _ each => each.2 holds)))
  exact (respells_instanceInterface acyclic respelling receiver apart settles
    (.cons key (.cons value .nil))).bind fun _ _ respells =>
      Lockstep.pure (respells_refinePlaces settles pairs respells)

theorem respells_procInterface (acyclic : a.env.arena.Acyclic) (respelling : Respelling root f)
    (receiver : root.IsReceiver f selfType selfType')
    (apart : ∀ d, a.env.instanceDefinition a.core.proc = .ok d → ∀ method, P method →
      d.KeepsApart a.env.arena d.typeParams method (root.involved f)) {settled : Prop}
    (settles : ∀ method, P method → settled) {params params' : Params Ty} {result result' : Ty}
    (respelled : settled → params' = params.map (Ty.respell f) ∧
      ∀ t ∈ params.toList, t.IsWithin (.over (root.untouched f)))
    (respelled' : settled → Ty.Respelled f (root.untouched f) result result') :
    Parallel (Session.OnWay a receivers) (Session.OnWay a receivers')
      (a.procInterface params result includePrivate selfType)
      (a.procInterface params' result' includePrivate selfType') (Interface.Respells root f P) := by
  refine (respells_instanceInterface acyclic respelling receiver apart settles .nil).bind
    fun proc proc' respells => Lockstep.pure fun method => ?_
  have exact' : List.Forall₂ (fun o o' => P method → Overload.Respelled f (root.untouched f) o o')
      [.ofTypes params result] [.ofTypes params' result'] := by
    refine .cons (fun holds => ?_) .nil
    obtain ⟨same, within⟩ := respelled (settles method holds)
    exact respelled_ofTypes same within (respelled' (settles method holds))
  exact ((respells method).put _ exact').put _ exact'

end Analysis

end SignatureAlgebra
