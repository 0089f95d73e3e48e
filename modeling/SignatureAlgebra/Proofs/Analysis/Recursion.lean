/-
**Computing an interface comes to an end, and is refused for a circle only where there is one.**

Two mechanisms keep the computation from going round in circles: the aliases followed in a row, and the
aliases whose interface is being computed. On the way `self` is replaced by the receiver once, and an alias
may come with arguments once before its body is declared. All of this is bounded by the number of declared
aliases, so the bound on the steps is never used up. An interface that is found belongs to a type from which
no circle can be reached, and an alias that is refused as recursive lies on one.

* `Analysis.interfaceTo` — the computation with anything at all done at the bound.
* `Analysis.interfaceTo_same`, `interfaceTo_stable`, `interfaceFor_same` — what is done at the bound does not
  matter.
* `Analysis.ends_named` — types that lead to no other type.
* `Analysis.interfaceTo_ends` — the two outcomes, for aliases that are on the way.
* `Analysis.interfaceFor_recursion` — the statement.
-/
import SignatureAlgebra.Proofs.Analysis.Expanding
import SignatureAlgebra.Proofs.Analysis.Hygiene

namespace SignatureAlgebra

namespace Analysis

variable {a : Analysis} {receivers : List Ty} {includePrivate : Bool}

/-! ### The computation without its bound -/

/-- The interface of a type for a receiver, with `last` for what is met after that many steps to types
that are not parts of the one at hand. -/
def interfaceTo (a : Analysis) (includePrivate : Bool) (last : Ty → Ty → AnalysisM Interface) :
    Nat → Ty → Ty → AnalysisM Interface
  | 0 => last
  | depth + 1 => fun selfType =>
    Ty.recurse (a.receiverLayer includePrivate (a.interfaceTo includePrivate last depth) selfType)

theorem interfaceWithin_eq_interfaceTo (a : Analysis) (includePrivate : Bool) (bound : Nat) :
    a.interfaceWithin includePrivate bound =
      a.interfaceTo includePrivate (fun _ t => throw (.recursiveAlias t)) (bound + 1) := by
  induction bound with
  | zero => rfl
  | succ bound ih =>
    funext selfType
    rw [interfaceWithin, ih]
    rfl

theorem interfaceTo_add (a : Analysis) (includePrivate : Bool) (last : Ty → Ty → AnalysisM Interface)
    (depth more : Nat) :
    a.interfaceTo includePrivate last (depth + more) =
      a.interfaceTo includePrivate (a.interfaceTo includePrivate last more) depth := by
  induction depth with
  | zero => rw [Nat.zero_add]; rfl
  | succ depth ih => rw [Nat.succ_add, interfaceTo, ih]; rfl

theorem transparent_interfaceTo (a : Analysis) (includePrivate : Bool) (depth : Nat)
    (selfType t : Ty) :
    a.Transparent (a.interfaceTo includePrivate refusing depth selfType t).run := by
  induction depth generalizing selfType t with
  | zero => exact (pervades_transparent a).throw _
  | succ depth ih =>
    exact t.recurse_induction ((pervades_transparent a).receiverLayer includePrivate ih selfType)

/-- The interface of a union or an intersection is made of those of its members. -/
theorem receiverLayer_compound (a : Analysis) (includePrivate : Bool) (selfType : Ty)
    (connective : Connective) :
    ∃ whole : List Interface → Interface, ∀ (follow : Ty → Ty → AnalysisM Interface) (t : Ty)
      (results : List (AnalysisM Interface)),
        a.receiverLayer includePrivate follow selfType t (.compound connective results) =
          results.mapM id >>= fun interfaces => pure (whole interfaces) := by
  cases connective with
  | union => exact ⟨a.joinRule.joinAll selfType includePrivate, fun _ _ _ => rfl⟩
  | intersection => exact ⟨.mergeAll selfType includePrivate, fun _ _ _ => rfl⟩

/-! ### The bound does not matter -/

theorem sameOn_computing {α : Type} {t : Ty} {x y : AnalysisM α}
    (same : SameOn (Session.OnWay a (t :: receivers)) x y) :
    SameOn (Session.OnWay a receivers) (computing t x) (computing t y) := by
  intro s start
  exact congrArg (fun result => (result.1, { result.2 with receivers := result.2.receivers.tail }))
    (same _ (onWay_cons start t))

/-- An alias, where the aliases on the way are known. -/
theorem sameOn_receiverLayer_alias {follow follow' : Ty → Ty → AnalysisM Interface} {selfType : Ty}
    {name : TypeName} {args : List Ty} {results results' : List (AnalysisM Interface)}
    {expanded : Ty → Prop} {refused : Error → Prop}
    (expands : Ends (Session.OnWay a receivers) (a.expandDeep (.aliasOf name args)) expanded refused)
    (follows : .aliasOf name args ∉ receivers → ∀ t, expanded t →
      SameOn (Session.OnWay a (.aliasOf name args :: receivers)) (follow selfType t)
        (follow' selfType t)) :
    SameOn (Session.OnWay a receivers)
      (a.receiverLayer includePrivate follow selfType (.aliasOf name args)
        (.applied .ofAlias name results))
      (a.receiverLayer includePrivate follow' selfType (.aliasOf name args)
        (.applied .ofAlias name results')) := by
  intro s start
  have layer : SameOn (Session.OnWay a receivers) (do
      if .aliasOf name args ∈ receivers then throw (.recursiveAlias (.aliasOf name args))
      let t ← a.expandDeep (.aliasOf name args)
      computing (.aliasOf name args) (follow selfType t) : AnalysisM Interface) (do
      if .aliasOf name args ∈ receivers then throw (.recursiveAlias (.aliasOf name args))
      let t ← a.expandDeep (.aliasOf name args)
      computing (.aliasOf name args) (follow' selfType t) : AnalysisM Interface) := by
    refine SameOn.guarded fun isNew => ?_
    exact (SameOn.refl _).bind expands fun t isExpanded =>
      sameOn_computing (follows isNew t isExpanded)
  have run := layer s start
  rw [← start.receivers] at run
  exact run

theorem sameOn_receiverLayer_self {kind : Session → Prop} {follow follow' : Ty → Ty → AnalysisM Interface}
    {selfType t : Ty}
    (follows : selfType ≠ .selfType →
      SameOn kind (follow .selfType selfType) (follow' .selfType selfType)) :
    SameOn kind (a.receiverLayer includePrivate follow selfType t (.placeholder .selfType))
      (a.receiverLayer includePrivate follow' selfType t (.placeholder .selfType)) := by
  show SameOn kind (if selfType = .selfType then throw .selfWithoutReceiver
      else follow .selfType selfType)
    (if selfType = .selfType then throw .selfWithoutReceiver else follow' .selfType selfType)
  split
  · exact SameOn.refl _
  · next known => exact follows known

/-- Two steps for a receiver other than `self`, which is replaced by it once. -/
def selfSteps (selfType : Ty) : Nat := if selfType = .selfType then 0 else 2

/-- **What is done at the bound does not matter** for the answer, if the bound exceeds what falls with
every step: the aliases not met, one for aliases with arguments, and two for `self`. -/
theorem interfaceTo_same (acyclic : a.env.arena.Acyclic) (last : Ty → Ty → AnalysisM Interface)
    {depth : Nat} {selfType t : Ty}
    (enough : a.env.unseen receivers + t.excess + selfSteps selfType < depth) :
    SameOn (Session.OnWay a receivers) (a.interfaceTo includePrivate last depth selfType t)
      (a.interfaceTo includePrivate refusing depth selfType t) := by
  induction depth generalizing receivers selfType t with
  | zero => exact absurd enough (Nat.not_lt_zero _)
  | succ depth ih =>
    induction t using Ty.induction with
    | step t ih' =>
      obtain ⟨s⟩ := t
      show SameOn _ (Ty.recurse (a.receiverLayer includePrivate (a.interfaceTo includePrivate last depth)
          selfType) ⟨s⟩)
        (Ty.recurse (a.receiverLayer includePrivate (a.interfaceTo includePrivate refusing depth)
          selfType) ⟨s⟩)
      rw [Ty.recurse_node, Ty.recurse_node]
      cases s with
      | applied head name args =>
        cases head with
        | ofAlias =>
          refine sameOn_receiverLayer_alias (expandDeep_ends acyclic selfType _)
            fun isNew expanded expands => ih ?_
          obtain ⟨body, declared⟩ := expands.declared name args rfl
          have fewer := Environment.unseen_cons_lt declared isNew
          have none : expanded.excess = 0 :=
            Ty.excess_of_isDeclarable (expands.declarable (Or.inr ⟨name, args, rfl⟩))
          have enough' : a.env.unseen receivers + (Ty.aliasOf name args).excess + selfSteps selfType <
            depth + 1 := enough
          omega
        | _ => exact SameOn.refl _
      | placeholder word =>
        cases word with
        | selfType =>
          refine sameOn_receiverLayer_self fun known => ih ?_
          have two : selfSteps selfType = 2 := if_neg known
          have none : selfSteps .selfType = 0 := if_pos rfl
          have one := selfType.excess_le_one
          omega
        | _ => exact SameOn.refl _
      | compound connective members =>
        have each : SameOn (Session.OnWay a receivers)
            (members.mapM (a.interfaceTo includePrivate last (depth + 1) selfType))
            (members.mapM (a.interfaceTo includePrivate refusing (depth + 1) selfType)) := by
          refine SameOn.mapM members (fun u isMember => ih' u isMember ?_) fun u _ =>
            (transparent_interfaceTo a includePrivate (depth + 1) selfType u).ends acyclic
          have less : u.excess ≤ (Ty.node (.compound connective members)).excess :=
            Ty.excess_le_of_mem_children isMember
          omega
        have transparent := (pervades_transparent a).mapMExcept members fun u _ =>
          transparent_interfaceTo a includePrivate (depth + 1) selfType u
        obtain ⟨whole, layer⟩ := a.receiverLayer_compound includePrivate selfType connective
        rw [Shape.map, Shape.map, layer, layer, List.mapM_map, List.mapM_map]
        exact each.bind (transparent.ends acyclic) fun _ _ => SameOn.refl _
      | _ => exact SameOn.refl _

/-- The bound of computing an interface does not matter, whichever aliases are on the way. -/
theorem interfaceTo_stable (acyclic : a.env.arena.Acyclic) (last : Ty → Ty → AnalysisM Interface)
    {receivers : List Ty} {depth : Nat} (enough : a.env.aliasBound + 2 ≤ depth) (selfType t : Ty) :
    SameOn (Session.OnWay a receivers) (a.interfaceTo includePrivate last depth selfType t)
      (a.interfaceTo includePrivate refusing (a.env.aliasBound + 2) selfType t) := by
  have few : a.env.unseen receivers + t.excess + selfSteps selfType < a.env.aliasBound + 2 := by
    have aliases := a.env.unseen_le_length receivers
    have one := t.excess_le_one
    have two : selfSteps selfType ≤ 2 := by
      unfold selfSteps
      split <;> decide
    unfold Environment.aliasBound
    omega
  obtain ⟨more, rfl⟩ := Nat.exists_eq_add_of_le enough
  rw [interfaceTo_add]
  exact interfaceTo_same acyclic _ few

theorem interfaceFor_stable (acyclic : a.env.arena.Acyclic) (selfType t : Ty) :
    SameOn (Session.OnWay a []) (a.interfaceFor t includePrivate selfType)
      (a.interfaceTo includePrivate refusing (a.env.aliasBound + 2) selfType t) := by
  rw [interfaceFor, interfaceWithin_eq_interfaceTo]
  exact interfaceTo_stable acyclic _ (Nat.le_succ _) selfType t

/-- **The bound of computing an interface does not matter**, nor what is done at the bound. -/
theorem interfaceFor_same (acyclic : a.env.arena.Acyclic) (last : Ty → Ty → AnalysisM Interface)
    {depth : Nat} (enough : a.env.aliasBound + 3 ≤ depth) (selfType t : Ty) :
    SameOn (Session.OnWay a []) (a.interfaceTo includePrivate last depth selfType t)
      (a.interfaceFor t includePrivate selfType) :=
  (interfaceTo_stable acyclic last (by omega) selfType t).trans (interfaceFor_stable acyclic selfType t).symm

/-! ### Types that lead to no other type -/

/-- An error that is about no alias. -/
def Unrelated (e : Error) : Prop := ∀ u, e ≠ .recursiveAlias u

theorem unrelated_instanceDefinition (env : Environment) (name : TypeName) :
    Outcome (fun _ => True) Unrelated (env.instanceDefinition name) := by
  unfold Environment.instanceDefinition
  cases env.class? name with
  | some entry => exact trivial
  | none => exact nofun

theorem unrelated_singletonDefinition (env : Environment) (name : TypeName) :
    Outcome (fun _ => True) Unrelated (env.singletonDefinition name) := by
  unfold Environment.singletonDefinition
  cases env.class? name with
  | some entry => exact trivial
  | none => exact nofun

theorem unrelated_interfaceDefinition (env : Environment) (name : TypeName) :
    Outcome (fun _ => True) Unrelated (env.interfaceDefinition name) := by
  unfold Environment.interfaceDefinition
  cases env.interfaces.lookup name with
  | some definition => exact trivial
  | none => exact nofun

theorem unrelated_ofLists (vars : List Name) (types : List Ty) :
    Outcome (fun _ => True) Unrelated (Substitution.ofLists vars types) := by
  by_cases same : vars.length = types.length
  · rw [Substitution.ofLists, if_pos same]
    exact trivial
  · rw [Substitution.ofLists, if_neg same]
    rintro u ⟨⟩

variable {selfType : Ty}

theorem ends_memberInterface (acyclic : a.env.arena.Acyclic) (definition : Definition)
    (s : Substitution) :
    Ends (Session.OnWay a receivers) (liftM (a.memberInterface definition s includePrivate selfType))
      (fun _ => True) Unrelated :=
  Ends.lift (((pervades_transparent a).memberInterface definition s includePrivate selfType).ensures acyclic)

theorem ends_instanceInterface (acyclic : a.env.arena.Acyclic) (name : TypeName) (args : List Ty) :
    Ends (Session.OnWay a receivers) (a.instanceInterface name args includePrivate selfType)
      (fun _ => True) Unrelated := by
  refine (Ends.ofExcept (unrelated_instanceDefinition a.env name)).bind fun definition _ => ?_
  refine (Ends.ofExcept (unrelated_ofLists definition.typeParams args)).bind fun s _ => ?_
  exact ends_memberInterface acyclic definition _

theorem ends_interfaceInterface (acyclic : a.env.arena.Acyclic) (name : TypeName) (args : List Ty) :
    Ends (Session.OnWay a receivers) (a.interfaceInterface name args includePrivate selfType)
      (fun _ => True) Unrelated := by
  refine (Ends.ofExcept (unrelated_interfaceDefinition a.env name)).bind fun definition _ => ?_
  refine (Ends.ofExcept (unrelated_ofLists definition.typeParams args)).bind fun s _ => ?_
  exact ends_memberInterface acyclic definition _

theorem ends_singletonInterface (acyclic : a.env.arena.Acyclic) (name : TypeName) :
    Ends (Session.OnWay a receivers) (a.singletonInterface name includePrivate selfType)
      (fun _ => True) Unrelated := by
  refine (Ends.ofExcept (unrelated_singletonDefinition a.env name)).bind fun definition _ => ?_
  exact ends_memberInterface acyclic definition _

theorem ends_booleanInterface (acyclic : a.env.arena.Acyclic) :
    Ends (Session.OnWay a receivers) (a.booleanInterface includePrivate selfType)
      (fun _ => True) Unrelated :=
  (Ends.mapM_forall a.core.booleanClasses fun name _ => ends_instanceInterface acyclic name []).bind
    fun _ _ => Ends.pure trivial

/-- **A type that leads to no other type** has an interface, or is refused for what is not declared. -/
theorem ends_named (acyclic : a.env.arena.Acyclic) (follow : Ty → Ty → AnalysisM Interface)
    {s : Shape Ty} (results : Ty → AnalysisM Interface) (noAlias : ¬ Ty.IsAlias ⟨s⟩)
    (isolated : ∀ u, ¬ a.env.Step selfType ⟨s⟩ u) :
    Ends (Session.OnWay a receivers)
      (a.receiverLayer includePrivate follow selfType ⟨s⟩ (s.map results))
      (fun _ => Connective.union.absorbs ⟨s⟩ = false) Unrelated := by
  have instances : ∀ name args, Ends (Session.OnWay a receivers)
      (a.instanceInterface name args includePrivate selfType) (fun _ => True) Unrelated :=
    fun name args => ends_instanceInterface acyclic name args
  have known : ∀ {x : AnalysisM Interface}, Connective.union.absorbs ⟨s⟩ = false →
      Ends (Session.OnWay a receivers) x (fun _ => True) Unrelated →
        Ends (Session.OnWay a receivers) x (fun _ => Connective.union.absorbs ⟨s⟩ = false)
          Unrelated := fun silent ends => ends.imp (fun _ _ => silent) fun _ other => other
  cases s with
  | base word =>
    cases word with
    | nil => exact known rfl (instances _ _)
    | boolean => exact known rfl (ends_booleanInterface acyclic)
    | _ => exact Ends.throw nofun
  | placeholder word =>
    cases word with
    | selfType => exact absurd Environment.Step.ofSelf (isolated selfType)
    | _ => exact Ends.throw nofun
  | var name => exact Ends.throw nofun
  | literal value => exact known rfl (instances _ _)
  | logic evidence => exact known rfl (ends_booleanInterface acyclic)
  | singleton name => exact known rfl (ends_singletonInterface acyclic name)
  | applied head name args =>
    cases head with
    | ofClass => exact known rfl (instances name args)
    | ofInterface => exact known rfl (ends_interfaceInterface acyclic name args)
    | ofAlias => exact absurd ⟨name, args, rfl⟩ noAlias
  | compound connective members =>
    obtain rfl : members = [] :=
      List.eq_nil_iff_forall_not_mem.2 fun u isMember => isolated u (Environment.Step.ofMember isMember)
    cases connective <;> exact Ends.pure rfl
  | tuple members =>
    exact known rfl ((instances _ _).bind fun _ _ => Ends.pure trivial)
  | record fields =>
    exact known rfl ((instances _ _).bind fun _ _ => Ends.pure trivial)
  | proc params result =>
    exact known rfl ((instances _ _).bind fun _ _ => Ends.pure trivial)

/-! ### The two outcomes -/

/-- **The two outcomes of computing an interface**: one for a settled type, or an alias that lies on a
circle or is on the way already. -/
theorem interfaceTo_ends (acyclic : a.env.arena.Acyclic) (depth : Nat) (selfType t : Ty) :
    Ends (Session.OnWay a receivers) (a.interfaceTo includePrivate refusing depth selfType t)
      (fun _ => Connective.union.absorbs t = false ∧ a.env.Settled selfType t)
      (a.env.Recurs selfType receivers t) := by
  induction depth generalizing receivers selfType t with
  | zero => exact Ends.throw (Environment.recurs_of_ne nofun)
  | succ depth ih =>
    refine Ty.recurse_spec (P := fun t x => Ends (Session.OnWay a receivers) x
      (fun _ => Connective.union.absorbs t = false ∧ a.env.Settled selfType t)
      (a.env.Recurs selfType receivers t)) (fun s f each => ?_) t
    have named : ¬ Ty.IsAlias ⟨s⟩ → (∀ u, ¬ a.env.Step selfType ⟨s⟩ u) → Ends (Session.OnWay a receivers)
        (a.receiverLayer includePrivate (a.interfaceTo includePrivate refusing depth) selfType ⟨s⟩
          (s.map f))
        (fun _ => Connective.union.absorbs ⟨s⟩ = false ∧ a.env.Settled selfType ⟨s⟩)
        (a.env.Recurs selfType receivers ⟨s⟩) := fun noAlias isolated =>
      (ends_named acyclic _ f noAlias isolated).imp
        (fun _ silent => ⟨silent, Environment.settled_of_no_step isolated⟩)
        fun _ other => Environment.recurs_of_ne other
    cases s with
    | applied head name args =>
      cases head with
      | ofAlias =>
        have isAlias : (Ty.aliasOf name args).IsAlias := ⟨name, args, rfl⟩
        refine ends_receiverLayer_alias (fun onWay u same => ?_)
          ((expandDeep_ends acyclic selfType _).imp (fun _ expands => expands) fun e recurs u same => ?_)
          fun isNew expanded expands => ?_
        · obtain rfl := Error.recursiveAlias.inj same
          exact ⟨isAlias, Or.inr ⟨onWay, Relation.ReflTransGen.refl⟩⟩
        · obtain ⟨isAlias', circle | ⟨impossible, _⟩⟩ := recurs u same
          · exact ⟨isAlias', Or.inl circle⟩
          · cases impossible
        · refine (ih selfType expanded).imp (fun _ ⟨silent, settled⟩ => ⟨rfl, ?_⟩) fun e recurs => ?_
          · exact expands.settled silent settled
          · exact recurs.close isAlias fun v isAlias' back => expands.leads isAlias isAlias' back
      | _ => exact named (by rintro ⟨_, _, ⟨⟩⟩) (by rintro _ ⟨⟩)
    | placeholder word =>
      cases word with
      | selfType =>
        refine ends_receiverLayer_self (Environment.recurs_of_ne nofun) ?_
        refine (ih .selfType selfType).imp (fun _ ⟨_, settled⟩ => ⟨rfl, ?_⟩) fun e recurs u same => ?_
        · refine Acc.intro _ fun u step => ?_
          cases step with
          | ofSelf => exact Environment.settled_of_self settled
        · obtain ⟨isAlias, circle | ⟨onWay, back⟩⟩ := recurs u same
          · exact ⟨isAlias, Or.inl (Environment.circular_of_self isAlias circle)⟩
          · exact ⟨isAlias, Or.inr ⟨onWay, Relation.ReflTransGen.head Environment.Step.ofSelf
              (Environment.reaches_of_self back)⟩⟩
      | _ => exact named (by rintro ⟨_, _, ⟨⟩⟩) (by rintro _ ⟨⟩)
    | compound connective members =>
      have parts : Ends (Session.OnWay a receivers) (members.mapM f)
          (List.Forall₂ (fun u _ => a.env.Settled selfType u) members)
          (a.env.Recurs selfType receivers ⟨.compound connective members⟩) :=
        Ends.mapM members fun u isMember => (each u isMember).imp (fun _ known => known.2)
          fun _ recurs => recurs.step (Environment.Step.ofMember isMember)
      have settled : ∀ {interfaces : List Interface},
          List.Forall₂ (fun u _ => a.env.Settled selfType u) members interfaces →
            a.env.Settled selfType ⟨.compound connective members⟩ := fun pairs =>
        Environment.settled_compound fun u isMember => by
          obtain ⟨_, _, known⟩ := exists_right_of_forall₂ pairs isMember
          exact known
      have silent : Connective.union.absorbs ⟨.compound connective members⟩ = false := by
        cases connective <;> rfl
      obtain ⟨whole, layer⟩ := a.receiverLayer_compound includePrivate selfType connective
      rw [Shape.map, layer, List.mapM_map]
      exact parts.bind fun _ pairs => Ends.pure ⟨silent, settled pairs⟩
    | _ => exact named (by rintro ⟨_, _, ⟨⟩⟩) (by rintro _ ⟨⟩)

/-- **Computing an interface comes to an end, and is refused for a circle only where there is one.** At any
time the answer is the same whatever is done after as many steps as the bound allows, and so is that of
following aliases on the way: the steps are never used up. If there is an interface, no circle can be
reached from the type. If an alias is refused as recursive, it reaches itself by one step or more. -/
theorem interfaceFor_recursion (acyclic : a.env.arena.Acyclic) (names : Interner) (nextFresh : Nat)
    (events : List Event) (t : Ty) (includePrivate : Bool) (selfType : Ty) :
    let s := a.after (.start names nextFresh) events
    (∀ (last : Ty → Ty → AnalysisM Interface) (depth : Nat), a.env.aliasBound + 3 ≤ depth →
      a.interfaceTo includePrivate last depth selfType t s =
        a.interfaceFor t includePrivate selfType s) ∧
    (∀ (last : List Ty → Ty → AnalysisM Ty) (depth : Nat), a.env.aliasBound + 1 ≤ depth →
      ∀ (u : Ty) (here : Session), here.Coherent a →
        a.expandTo last depth [] u here = a.expandDeep u here) ∧
    (∀ i, (a.interfaceFor t includePrivate selfType s).1 = .ok i →
      ∀ u, a.env.Reaches selfType t u → ¬ a.env.Circular selfType u) ∧
    ∀ u, (a.interfaceFor t includePrivate selfType s).1 = .error (.recursiveAlias u) →
      u.IsAlias ∧ a.env.Circular selfType u := by
  intro s
  have idle : a.Idle s := idle_after acyclic (idle_start a names nextFresh) events
  have start : s.OnWay a [] := ⟨idle.coherent, idle.receivers⟩
  have ends : Ends (Session.OnWay a []) (a.interfaceFor t includePrivate selfType)
      (fun _ => Connective.union.absorbs t = false ∧ a.env.Settled selfType t)
      (a.env.Recurs selfType [] t) :=
    (interfaceFor_same acyclic refusing (Nat.le_refl _) selfType t).symm.ends
      (interfaceTo_ends acyclic _ selfType t)
  have outcome := (ends s start).1
  change Outcome _ _ (a.interfaceFor t includePrivate selfType s).1 at outcome
  refine ⟨fun last depth enough => interfaceFor_same acyclic last enough selfType t s start,
    fun last depth enough u here coherent => ?_, fun i computed u reached => ?_, fun u refused => ?_⟩
  · exact expandDeep_same acyclic last enough u here ⟨coherent, rfl⟩
  · rw [computed] at outcome
    exact outcome.2.not_circular reached
  · rw [refused] at outcome
    obtain ⟨isAlias, circle | ⟨impossible, _⟩⟩ := outcome u rfl
    · exact ⟨isAlias, circle⟩
    · cases impossible

open Boxes in
/-- The alias that stands for itself and `nil` at once is refused, after other questions as well, and lies
on a circle; a box has an interface, and no circle can be reached from it. -/
theorem interfaceFor_recursion_loop :
    let s := ofLoop.after (.start .initial 0) [.ask (.expandOne loop)]
    let receiver := Ty.instanceOf box [.nil]
    ofLoop.env.arena.Acyclic ∧
      (ofLoop.interfaceFor loop false .selfType s).1 = .error (.recursiveAlias loop) ∧
      ofLoop.env.Circular .selfType loop ∧
      (declaring varE varT).env.arena.Acyclic ∧
      ((declaring varE varT).interfaceFor receiver false receiver (.start names 1)).1 =
        .ok (offering receiver (mapped varT .nil (.var varT))) ∧
      ¬ (declaring varE varT).env.Circular receiver receiver := by
  intro s receiver
  have acyclic' : ofLoop.env.arena.Acyclic :=
    (((Arena.acyclic_empty 0).push (by decide)).push (by decide)).push (by decide)
  have refused : (ofLoop.interfaceFor loop false .selfType s).1 = .error (.recursiveAlias loop) := by rfl
  have computed : ((declaring varE varT).interfaceFor receiver false receiver (.start names 1)).1 =
      .ok (offering receiver (mapped varT .nil (.var varT))) := by rfl
  obtain ⟨_, _, _, circle⟩ := interfaceFor_recursion acyclic' .initial 0 [.ask (.expandOne loop)] loop
    false .selfType
  obtain ⟨_, _, settled, _⟩ := interfaceFor_recursion (acyclic varE varT) names 1 [] receiver false
    receiver
  exact ⟨acyclic', refused, (circle loop refused).2, acyclic varE varT, computed,
    settled _ computed receiver Relation.ReflTransGen.refl⟩

end Analysis

end SignatureAlgebra
