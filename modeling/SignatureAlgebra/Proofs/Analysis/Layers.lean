/-
**The interfaces of a type in two computations.**

Where two interfaces of one type are to be compared, they are computed in lockstep: at different times, with
other aliases on the way, with and without private members. Both computations go through the same types, so
both are refused for the same reason or neither is, and what relates the interfaces of the parts of a type
has only to be carried to the whole, one layer at a time.

* `Analysis.refine` — what a structure adds to the interface of the class behind it.
* `Analysis.Layers` — a relation of interfaces that every layer carries on.
* `Analysis.Layers.named` — types that lead to no other type; `Analysis.Layers.lockstep` — any type.
* `Analysis.find?_memberInterface_eq` — members whose type parameters are not renamed.
-/
import SignatureAlgebra.Proofs.Analysis.Instances
import SignatureAlgebra.Proofs.Analysis.Recursion
import SignatureAlgebra.Proofs.Analysis.RespelledReceivers
import SignatureAlgebra.Proofs.Analysis.Walks

namespace SignatureAlgebra

/-- The types of truth values. -/
def Ty.IsTruth (t : Ty) : Prop := t = .boolean ∨ ∃ evidence, t = .logic evidence

/-- Overloads that are made of the same declared ones in one way. -/
theorem Overloaded.unique {R R' : DeclaredOverload → Overload → Prop} {member : Option Member}
    {os os' : Option (List Overload)} (first : Overloaded R member os) (second : Overloaded R' member os')
    (each : ∀ m ∈ member, ∀ d ∈ m.overloads, ∀ o o', R d o → R' d o' → o = o') : os = os' := by
  have related := first.related second each
  rw [List.forall₂_eq_eq_eq] at related
  cases related with
  | none => rfl
  | some same => exact congrArg some same

/-- Interfaces for one receiver that find the same methods. -/
theorem Interface.eq_of_find? {i i' : Interface} (receiver : i.selfType = i'.selfType)
    (flag : i.includesPrivate = i'.includesPrivate) (methods : ∀ name, i.find? name = i'.find? name) :
    i = i' := by
  obtain ⟨_, _, _⟩ := i
  obtain ⟨_, _, _⟩ := i'
  obtain rfl := receiver
  obtain rfl := flag
  exact congrArg _ (NameMap.ext methods)

namespace Analysis

variable {a : Analysis} {receivers receivers' : List Ty}

/-! ### Relations that every layer carries on -/

/-- What a structure adds to the interface of the class behind it. -/
def refine (a : Analysis) : Ty → Interface → Interface
  | .tuple members, i => ((a.refinePlaces i (indexed 0 members)).put a.core.first
      [.ofTypes .empty (members.head?.getD .nil)]).put a.core.last
        [.ofTypes .empty (members.getLast?.getD .nil)]
  | .record fields, i => a.refinePlaces i fields
  | .proc params result, i => (i.put a.core.elementGet [.ofTypes params result]).put a.core.call
      [.ofTypes params result]
  | _, i => i

/-- **A relation that every layer carries on**, from the interfaces that a type's come from to those of the
type: a relation of interfaces for each receiver and each type, where the private members are asked for or not
on either side. -/
structure Layers (a : Analysis) (includePrivate includePrivate' : Bool)
    (R : Ty → Ty → Interface → Interface → Prop) : Prop where
  members : ∀ {selfType t : Ty} {d : Definition} {replaced : List Name} {filled : Substitution}
    {s s' : Session}, a.Declares t d replaced → filled.slot .selfType = some selfType → s.Coherent a →
      s'.Coherent a → R selfType t (a.memberInterface d filled includePrivate selfType s).1
        (a.memberInterface d filled includePrivate' selfType s').1
  refines : ∀ {selfType t : Ty} {i i' : Interface}, R selfType t i i' →
    R selfType t (a.refine t i) (a.refine t i')
  truth : ∀ {selfType t : Ty} {pairs : List (Interface × Interface)}, t.IsTruth →
    (∀ pair ∈ pairs, R selfType t pair.1 pair.2) →
      R selfType t (a.joinRule.joinAll selfType includePrivate (pairs.map Prod.fst))
        (a.joinRule.joinAll selfType includePrivate' (pairs.map Prod.snd))
  union : ∀ {selfType : Ty} {members : List Ty} {pairs : List (Interface × Interface)},
    List.Forall₂ (fun u pair => R selfType u pair.1 pair.2) members pairs →
      R selfType ⟨.compound .union members⟩
        (a.joinRule.joinAll selfType includePrivate (pairs.map Prod.fst))
        (a.joinRule.joinAll selfType includePrivate' (pairs.map Prod.snd))
  intersection : ∀ {selfType : Ty} {members : List Ty} {pairs : List (Interface × Interface)},
    List.Forall₂ (fun u pair => R selfType u pair.1 pair.2) members pairs →
      R selfType ⟨.compound .intersection members⟩
        (.mergeAll selfType includePrivate (pairs.map Prod.fst))
        (.mergeAll selfType includePrivate' (pairs.map Prod.snd))
  ofAlias : ∀ {selfType t expanded : Ty} {i i' : Interface}, t.IsAlias → expanded.IsNormal →
    a.env.Stops selfType t expanded → R selfType expanded i i' → R selfType t i i'
  ofSelf : ∀ {selfType : Ty} {i i' : Interface}, R .selfType selfType i i' → R selfType .selfType i i'

namespace Layers

variable {includePrivate includePrivate' : Bool} {R : Ty → Ty → Interface → Interface → Prop}
  {selfType t : Ty}

/-! ### Types that lead to no other type -/

theorem memberInterface (layers : a.Layers includePrivate includePrivate' R)
    (acyclic : a.env.arena.Acyclic) {d : Definition} {replaced : List Name} {filled : Substitution}
    (declares : a.Declares t d replaced) (known : filled.slot .selfType = some selfType) :
    Lockstep (Session.OnWay a receivers) (Session.OnWay a receivers')
      (liftM (a.memberInterface d filled includePrivate selfType))
      (liftM (a.memberInterface d filled includePrivate' selfType)) (R selfType t) Eq := by
  refine Lockstep.lift fun s s' start start' =>
    ⟨layers.members declares known start.coherent start'.coherent, ?_, ?_⟩
  · exact (((pervades_transparent a).memberInterface d filled includePrivate selfType).ensures acyclic s
      start).2
  · exact (((pervades_transparent a).memberInterface d filled includePrivate' selfType).ensures acyclic s'
      start').2

theorem instanceInterface (layers : a.Layers includePrivate includePrivate' R)
    (acyclic : a.env.arena.Acyclic) {name : TypeName} (isClass : name ∈ a.classesOf t) (args : List Ty) :
    Lockstep (Session.OnWay a receivers) (Session.OnWay a receivers')
      (a.instanceInterface name args includePrivate selfType)
      (a.instanceInterface name args includePrivate' selfType) (R selfType t) Eq := by
  refine (Lockstep.ofExcept (Outcomes.self (fun _ => rfl) (a.env.instanceDefinition name))).bind
    fun d _ ⟨rfl, declared⟩ => ?_
  refine (Lockstep.ofExcept (Outcomes.self (fun _ => rfl) (Substitution.ofLists d.typeParams args))).bind
    fun s _ ⟨rfl, _⟩ => ?_
  exact layers.memberInterface acyclic (.ofClass isClass declared) rfl

/-- **A type that leads to no other type.** -/
theorem named (layers : a.Layers includePrivate includePrivate' R) (acyclic : a.env.arena.Acyclic)
    {follow follow' : Ty → Ty → AnalysisM Interface} {s : Shape Ty}
    {results results' : Ty → AnalysisM Interface}
    (noAlias : ¬ Ty.IsAlias ⟨s⟩) (isolated : ∀ u, ¬ a.env.Step selfType ⟨s⟩ u)
    (simple : ∀ connective members, s ≠ .compound connective members) :
    Lockstep (Session.OnWay a receivers) (Session.OnWay a receivers')
      (a.receiverLayer includePrivate follow selfType ⟨s⟩ (s.map results))
      (a.receiverLayer includePrivate' follow' selfType ⟨s⟩ (s.map results')) (R selfType ⟨s⟩) Eq := by
  have truth : Ty.IsTruth ⟨s⟩ → a.classesOf ⟨s⟩ = a.core.booleanClasses →
      Lockstep (Session.OnWay a receivers) (Session.OnWay a receivers')
        (a.booleanInterface includePrivate selfType) (a.booleanInterface includePrivate' selfType)
        (R selfType ⟨s⟩) Eq := by
    intro isTruth classes
    refine (Lockstep.mapM a.core.booleanClasses fun name isBoolean =>
      layers.instanceInterface acyclic (classes ▸ isBoolean) []).bind ?_
    rintro is is' ⟨pairs, rfl, rfl, each⟩
    refine Lockstep.pure (layers.truth isTruth fun pair isPair => ?_)
    obtain ⟨_, _, related⟩ := exists_left_of_forall₂ each isPair
    exact related
  cases s with
  | base word =>
    cases word with
    | nil => exact layers.instanceInterface acyclic List.mem_cons_self []
    | boolean => exact truth (Or.inl rfl) rfl
    | _ => exact Lockstep.throw rfl
  | placeholder word =>
    cases word with
    | selfType => exact absurd Environment.Step.ofSelf (isolated selfType)
    | _ => exact Lockstep.throw rfl
  | var name => exact Lockstep.throw rfl
  | literal value => exact layers.instanceInterface acyclic List.mem_cons_self []
  | logic evidence => exact truth (Or.inr ⟨evidence, rfl⟩) rfl
  | singleton name =>
    refine (Lockstep.ofExcept (Outcomes.self (fun _ => rfl) (a.env.singletonDefinition name))).bind
      fun d _ ⟨rfl, declared⟩ => ?_
    exact layers.memberInterface acyclic (.ofSingleton declared) rfl
  | applied head name args =>
    cases head with
    | ofClass => exact layers.instanceInterface acyclic List.mem_cons_self args
    | ofInterface =>
      refine (Lockstep.ofExcept (Outcomes.self (fun _ => rfl) (a.env.interfaceDefinition name))).bind
        fun d _ ⟨rfl, declared⟩ => ?_
      refine (Lockstep.ofExcept (Outcomes.self (fun _ => rfl)
        (Substitution.ofLists d.typeParams args))).bind fun s _ ⟨rfl, _⟩ => ?_
      exact layers.memberInterface acyclic (.ofInterface declared) rfl
    | ofAlias => exact absurd ⟨name, args, rfl⟩ noAlias
  | compound connective members => exact absurd rfl (simple connective members)
  | tuple members =>
    exact (layers.instanceInterface acyclic List.mem_cons_self [.union members]).bind
      fun _ _ related => Lockstep.pure (layers.refines related)
  | record fields =>
    exact (layers.instanceInterface acyclic List.mem_cons_self _).bind
      fun _ _ related => Lockstep.pure (layers.refines related)
  | proc params result =>
    exact (layers.instanceInterface acyclic List.mem_cons_self []).bind
      fun _ _ related => Lockstep.pure (layers.refines related)

/-! ### Any type -/

/-- **The interfaces of any type**, with the same of the aliases that it leads to on the way. -/
theorem lockstep (layers : a.Layers includePrivate includePrivate' R) (acyclic : a.env.arena.Acyclic)
    (depth : Nat) (same : ∀ u, u.IsAlias → a.env.Reaches selfType t u → (u ∈ receivers ↔ u ∈ receivers')) :
    Lockstep (Session.OnWay a receivers) (Session.OnWay a receivers')
      (a.interfaceTo includePrivate refusing depth selfType t)
      (a.interfaceTo includePrivate' refusing depth selfType t) (R selfType t) Eq := by
  induction depth generalizing receivers receivers' selfType t with
  | zero => exact Lockstep.throw rfl
  | succ depth ih =>
    induction t using Ty.induction with
    | step t ih' =>
      obtain ⟨s⟩ := t
      show Lockstep _ _ (Ty.recurse (a.receiverLayer includePrivate
          (a.interfaceTo includePrivate refusing depth) selfType) ⟨s⟩)
        (Ty.recurse (a.receiverLayer includePrivate' (a.interfaceTo includePrivate' refusing depth)
          selfType) ⟨s⟩) _ _
      rw [Ty.recurse_node, Ty.recurse_node]
      cases s with
      | applied head name args =>
        cases head with
        | ofAlias =>
          have isAlias : (Ty.aliasOf name args).IsAlias := ⟨name, args, rfl⟩
          obtain ⟨result, yields⟩ := yields_expandDeep acyclic (.aliasOf name args)
          have known := ((expandDeep_ends acyclic selfType (.aliasOf name args)).and
            ((expandDeep_stops acyclic selfType (.aliasOf name args)).and
              (isNormal_expandDeep acyclic receivers isAlias)) : Ends (Session.OnWay a receivers) _ _ _)
          refine lockstep_receiverLayer_alias (same _ isAlias Relation.ReflTransGen.refl) rfl
            ((Lockstep.ofYields (fun _ => rfl) (yields receivers) (yields receivers')).and_ends known) ?_
          rintro expanded _ ⟨⟨rfl, _⟩, expands, stops, normal⟩
          refine (ih fun u isAlias' reached => ?_).imp fun _ _ related =>
            layers.ofAlias isAlias normal stops related
          have leads := (expands.leads isAlias isAlias' reached).to_reflTransGen
          rw [List.mem_cons, List.mem_cons, same u isAlias' leads]
        | _ => exact layers.named acyclic (by rintro ⟨_, _, ⟨⟩⟩) (by rintro _ ⟨⟩) (by rintro _ _ ⟨⟩)
      | placeholder word =>
        cases word with
        | selfType =>
          refine lockstep_receiverLayer_self Iff.rfl rfl fun _ => ?_
          refine (ih fun u isAlias reached => same u isAlias ?_).imp fun _ _ related => layers.ofSelf related
          exact Relation.ReflTransGen.head Environment.Step.ofSelf (Environment.reaches_of_self reached)
        | _ => exact layers.named acyclic (by rintro ⟨_, _, ⟨⟩⟩) (by rintro _ ⟨⟩) (by rintro _ _ ⟨⟩)
      | compound connective members =>
        have parts := Lockstep.mapM members fun u isMember =>
          ih' u isMember fun v isAlias reached => same v isAlias
            (Relation.ReflTransGen.head (Environment.Step.ofMember isMember) reached)
        cases connective with
        | union =>
          show Lockstep _ _ ((members.map _).mapM id >>= _) ((members.map _).mapM id >>= _) _ _
          rw [List.mapM_map, List.mapM_map]
          refine parts.bind fun is is' ⟨pairs, all, all', each⟩ => ?_
          subst all all'
          exact Lockstep.pure (layers.union each)
        | intersection =>
          show Lockstep _ _ ((members.map _).mapM id >>= _) ((members.map _).mapM id >>= _) _ _
          rw [List.mapM_map, List.mapM_map]
          refine parts.bind fun is is' ⟨pairs, all, all', each⟩ => ?_
          subst all all'
          exact Lockstep.pure (layers.intersection each)
      | _ => exact layers.named acyclic (by rintro ⟨_, _, ⟨⟩⟩) (by rintro _ ⟨⟩) (by rintro _ _ ⟨⟩)

end Layers

/-! ### Members that are visible on both sides -/

variable {d : Definition} {filled : Substitution} {includePrivate includePrivate' : Bool} {selfType : Ty}
  {s s' : Session}

/-- **A member whose type parameters are not renamed** is built in one way, at any time and whether private
members are asked for or not. -/
theorem find?_memberInterface_eq (acyclic : a.env.arena.Acyclic)
    (known : filled.slot .selfType = some selfType) (coherent : s.Coherent a) (coherent' : s'.Coherent a)
    {name : Name} (visible : d.visible? includePrivate name = d.visible? includePrivate' name)
    (free : ∀ member ∈ d.visible? includePrivate name, ∀ declared ∈ member.overloads,
      ∀ q ∈ declared.signature.typeParams, q ∉ selfType.freeVars) :
    (a.memberInterface d filled includePrivate selfType s).1.find? name =
      (a.memberInterface d filled includePrivate' selfType s').1.find? name := by
  have first := find?_memberInterface a d filled includePrivate selfType s name
  have second := find?_memberInterface a d filled includePrivate' selfType s' name
  rw [← visible] at second
  exact first.unique second fun member isVisible declared isDeclared o o' built built' =>
    (built.eq_of_free acyclic coherent known (free member isVisible declared isDeclared)).trans
      (built'.eq_of_free acyclic coherent' known (free member isVisible declared isDeclared)).symm

/-- The members are put under the receiver. -/
theorem memberInterface_fields (a : Analysis) (d : Definition) (filled : Substitution) (includePrivate : Bool)
    (selfType : Ty) (s : Session) :
    (a.memberInterface d filled includePrivate selfType s).1.selfType = selfType ∧
      (a.memberInterface d filled includePrivate selfType s).1.includesPrivate = includePrivate := by
  have kept : ∀ (members : List Member) (i : Interface) (s : Session),
      (a.membersFrom filled selfType members i s).1.selfType = i.selfType ∧
        (a.membersFrom filled selfType members i s).1.includesPrivate = i.includesPrivate := by
    intro members
    induction members with
    | nil => exact fun i s => ⟨rfl, rfl⟩
    | cons member rest ih =>
      exact fun i s => ih (i.put member.name (a.memberOverloads filled selfType member s).1) _
  exact kept _ _ s

/-- Interfaces that are the same for each member. -/
theorem map_fst_eq_map_snd {P : Prop} {members : List Ty} {pairs : List (Interface × Interface)}
    (each : List.Forall₂ (fun _ pair => P → pair.1 = pair.2) members pairs) (holds : P) :
    pairs.map Prod.fst = pairs.map Prod.snd := by
  refine List.map_congr_left fun pair isPair => ?_
  obtain ⟨_, _, same⟩ := exists_left_of_forall₂ each isPair
  exact same holds

/-- **Without variables in the receiver the interface of a type is one**, at any time and with the same of the
aliases that it leads to on the way. -/
theorem layers_eq (acyclic : a.env.arena.Acyclic) (includePrivate : Bool) :
    a.Layers includePrivate includePrivate fun selfType _ i i' => selfType.freeVars = [] → i = i' where
  members := by
    intro selfType t d replaced filled s s' _ known coherent coherent' closed
    have methods : ∀ name, (a.memberInterface d filled includePrivate selfType s).1.find? name =
        (a.memberInterface d filled includePrivate selfType s').1.find? name := fun name =>
      find?_memberInterface_eq acyclic known coherent coherent' rfl fun _ _ _ _ q _ => by simp [closed]
    obtain ⟨here, flag⟩ := memberInterface_fields a d filled includePrivate selfType s
    obtain ⟨here', flag'⟩ := memberInterface_fields a d filled includePrivate selfType s'
    exact Interface.eq_of_find? (here.trans here'.symm) (flag.trans flag'.symm) methods
  refines related closed := congrArg _ (related closed)
  truth _ related closed := by
    have same : List.map Prod.fst _ = List.map Prod.snd _ := List.map_congr_left fun pair isPair =>
      related pair isPair closed
    rw [same]
  union each closed := congrArg _ (map_fst_eq_map_snd each closed)
  intersection each closed := congrArg _ (map_fst_eq_map_snd each closed)
  ofAlias _ _ _ related := related
  ofSelf related _ := related rfl

end Analysis

end SignatureAlgebra
