/-
**Interfaces do not depend on how the variables of the receiver are called**, but for unions.

The interface of a type and that of the type with other names for its variables are computed side by side,
each at any time. Both are there or neither is. Wherever overloads are not joined, only their number counts,
and it is the same. Overloads are joined if they agree in their type parameters, their blocks and so on, so
there the overloads themselves must be the same but for the names: that is so for methods that involve neither
the variables nor their other names, apart from the type parameters that the receiver has arguments for.

* `Analysis.Declares` — where the members of a type are declared; `Ty.IsJoined` — where overloads are joined.
* `Analysis.KeepsApart`, `Analysis.JoinsApart` — methods that involve none of some names.
* `Analysis.Spells` — the types that are met side by side.
* `Analysis.Agrees` — what is known of the two interfaces of such types.
* `Analysis.agrees_self`, `Analysis.agrees_alias`, `Analysis.agrees_members` — the layers that follow others.
* `Analysis.agrees_receiverLayer`, `Analysis.agrees_interfaceWithin` — one step and the whole way.
-/
import SignatureAlgebra.Proofs.Analysis.Normality
import SignatureAlgebra.Proofs.Analysis.RespelledMembers

namespace SignatureAlgebra

/-! ### Where members are declared, and where overloads are joined -/

/-- The classes of which the values of a type are instances, where its interface says so. -/
def Analysis.classesOf (a : Analysis) : Ty → List TypeName
  | .instanceOf name _ => [name]
  | .literal value => [a.core.literalOwner value]
  | .nil => [a.core.nilClass]
  | .boolean => a.core.booleanClasses
  | .logic _ => a.core.booleanClasses
  | .tuple _ => [a.core.array]
  | .record _ => [a.core.hash]
  | .proc _ _ => [a.core.proc]
  | _ => []

/-- **Where the members of a type are declared**, and the type parameters that the type has arguments
for. -/
inductive Analysis.Declares (a : Analysis) : Ty → Definition → List Name → Prop where
  | ofClass {t : Ty} {name : TypeName} {d : Definition} (isClass : name ∈ a.classesOf t)
    (declared : a.env.instanceDefinition name = .ok d) : Declares a t d d.typeParams
  | ofInterface {name : TypeName} {args : List Ty} {d : Definition}
    (declared : a.env.interfaceDefinition name = .ok d) : Declares a (.interfaceOf name args) d d.typeParams
  | ofSingleton {name : TypeName} {d : Definition}
    (declared : a.env.singletonDefinition name = .ok d) : Declares a (.singletonOf name) d []

/-- Types whose interface is joined of several: unions and truth values. -/
def Ty.IsJoined : Ty → Prop
  | ⟨.compound .union _⟩ => True
  | .boolean => True
  | .logic _ => True
  | _ => False

/-- Where an expanded type leads to something that is joined, the type itself leads to it as well, or to a
union that members were added to. -/
theorem Environment.Stops.joined {env : Environment} {root t u expanded : Ty} (normal : expanded.IsNormal)
    (stops : env.Stops root t expanded) (reached : env.Reaches root expanded u) (isJoined : u.IsJoined) :
    ∃ v, env.Reaches root t v ∧ v.IsJoined ∧ (u = v ∨ (u = expanded ∧ env.Stops root v expanded)) := by
  obtain ⟨stop, way, expands, same⟩ := stops
  rcases expands.reaches_or normal reached with further | ⟨rfl, compound | rfl⟩
  · exact ⟨u, way.trans further, isJoined, Or.inl rfl⟩
  · have isUnion : stop.isCompound .union = true := by
      by_contra other
      have plain : stop.isCompound .union = false := by simpa using other
      rw [same plain, plain] at compound
      cases compound
    have isJoined' : stop.IsJoined := by
      obtain ⟨members, rfl⟩ := Ty.eq_compound_of_isCompound isUnion
      exact trivial
    exact ⟨stop, way, isJoined', Or.inr ⟨rfl, stop, Relation.ReflTransGen.refl, expands, same⟩⟩
  · cases isJoined

namespace Analysis

/-- The aliases that a type leads to involve none of some names. -/
def AliasesApart (a : Analysis) (root : Ty) (involved : List Name) : Prop :=
  ∀ name args body, a.env.Reaches root root (.aliasOf name args) → a.env.aliasType name = .ok body →
    ∀ x ∈ body.freeVars, x ∉ involved

/-- **Under a name, nothing that a type leads to involves any of some names**, and neither do the aliases
that the receiver leads to. -/
structure KeepsApart (a : Analysis) (root : Ty) (involved : List Name) (t : Ty) (name : Name) : Prop where
  members : ∀ u d replaced, a.env.Reaches root t u → a.Declares u d replaced →
    d.KeepsApart a.env.arena replaced name involved
  aliases : a.AliasesApart root involved

/-- **Under a name, nothing that is joined involves any of some names.** -/
def JoinsApart (a : Analysis) (root : Ty) (involved : List Name) (t : Ty) (name : Name) : Prop :=
  ∀ u, a.env.Reaches root t u → u.IsJoined → a.KeepsApart root involved u name

variable {a : Analysis} {root t u : Ty} {f : Name → Name} {involved : List Name} {name : Name}

theorem KeepsApart.step (apart : a.KeepsApart root involved t name) (step : a.env.Step root t u) :
    a.KeepsApart root involved u name where
  members v d replaced reached declares :=
    apart.members v d replaced (Relation.ReflTransGen.head step reached) declares
  aliases := apart.aliases

theorem JoinsApart.step (apart : a.JoinsApart root involved t name) (step : a.env.Step root t u) :
    a.JoinsApart root involved u name := fun v reached isJoined =>
  apart v (Relation.ReflTransGen.head step reached) isJoined

/-! ### What an alias is expanded to -/

/-- Nothing is declared for a union, nor for the word that adds nothing to unions. -/
theorem not_declares {d : Definition} {replaced : List Name}
    (whole : t.isCompound .union = true ∨ t = .bottom) : ¬ a.Declares t d replaced := by
  intro declares
  rcases whole with compound | rfl
  · obtain ⟨members, rfl⟩ := Ty.eq_compound_of_isCompound compound
    cases declares with
    | ofClass isClass _ => cases isClass
  · cases declares with
    | ofClass isClass _ => cases isClass

theorem KeepsApart.expanded {expanded : Ty} (normal : expanded.IsNormal)
    (stops : a.env.Stops root t expanded) (apart : a.KeepsApart root involved t name) :
    a.KeepsApart root involved expanded name where
  members u d replaced reached declares := by
    rcases stops.reaches_or normal reached with further | ⟨rfl, whole⟩
    · exact apart.members u d replaced further declares
    · exact absurd declares (not_declares whole)
  aliases := apart.aliases

theorem JoinsApart.expanded {expanded : Ty} (normal : expanded.IsNormal)
    (stops : a.env.Stops root t expanded) (apart : a.JoinsApart root involved t name) :
    a.JoinsApart root involved expanded name := by
  intro u reached isJoined
  obtain ⟨v, way, isJoined', rfl | ⟨rfl, stops'⟩⟩ := stops.joined normal reached isJoined
  · exact apart u way isJoined
  · exact (apart v way isJoined').expanded normal stops'

/-- The variables of what is reached from a type are its own, or come from aliases. -/
theorem freeVars_of_reaches {env : Environment} {x : Name} (reached : env.Reaches .selfType t u)
    (occurs : x ∈ u.freeVars) :
    x ∈ t.freeVars ∨ ∃ name args body, env.Reaches .selfType t (.aliasOf name args) ∧
      env.aliasType name = .ok body ∧ x ∈ body.freeVars := by
  induction reached with
  | refl => exact Or.inl occurs
  | tail before step ih =>
    cases step with
    | ofAlias declared => exact Or.inr ⟨_, _, _, before, declared, occurs⟩
    | ofMember isMember =>
      refine ih (Ty.mem_freeVars.2 (Ty.mem_subterms_iff.2 (Or.inr ⟨_, isMember, ?_⟩)))
      exact Ty.mem_freeVars.1 occurs
    | ofSelf => exact ih occurs

/-- The variables of what an alias is expanded to come from aliases. -/
theorem freeVars_of_expands {env : Environment} {label : TypeName} {args : List Ty} {expanded : Ty}
    (expands : env.Expands .selfType (.aliasOf label args) expanded) (normal : expanded.IsNormal)
    {x : Name} (occurs : x ∈ expanded.freeVars) :
    ∃ name args' body, env.Reaches .selfType (.aliasOf label args) (.aliasOf name args') ∧
      env.aliasType name = .ok body ∧ x ∈ body.freeVars := by
  obtain ⟨leaf, isLeaf, inLeaf⟩ : ∃ leaf ∈ expanded.leaves .union, x ∈ leaf.freeVars := by
    rcases Ty.leaves_of_normal (c := .union) normal with single | ⟨members, _, rfl, all⟩
    · exact ⟨expanded, by rw [single]; exact List.mem_cons_self, occurs⟩
    · rcases Ty.mem_subterms_iff.1 (Ty.mem_freeVars.1 occurs) with same | ⟨u, isMember, inMember⟩
      · cases same
      · exact ⟨u, by rw [all]; exact isMember, Ty.mem_freeVars.2 inMember⟩
  rcases expands.reached leaf isLeaf with rfl | ⟨_, noAlias⟩ | way
  · cases Ty.mem_freeVars.1 inLeaf with
    | tail _ impossible => cases impossible
  · exact absurd ⟨label, args, rfl⟩ noAlias
  · obtain ⟨body, step, further⟩ := Relation.TransGen.head'_iff.1 way
    cases step with
    | ofAlias declared =>
      rcases freeVars_of_reaches further inLeaf with inBody | ⟨name, args', body', reached, rest⟩
      · exact ⟨label, args, body, Relation.ReflTransGen.refl, declared, inBody⟩
      · exact ⟨name, args', body', Relation.ReflTransGen.head (.ofAlias declared) reached, rest⟩

/-! ### Types side by side -/

/-- **The types that are met side by side**: those of the question are respelled on the other side, those
from aliases are the same. -/
inductive Spells (a : Analysis) (root : Ty) (f : Name → Name) : Ty → Ty → Prop where
  | ofRoot {t : Ty} (within : t.IsWithin (.over {x | x ∈ root.freeVars})) : Spells a root f t (t.respell f)
  | ofAlias {t : Ty} (normal : t.IsNormal) (declarable : t.IsDeclarable)
    (free : a.AliasesApart root (root.involved f) → ∀ x ∈ t.freeVars, x ∉ root.involved f) :
    Spells a root f t t

variable {t' : Ty}

theorem Spells.respelled (respelling : Respelling root f) (spells : a.Spells root f t t')
    (apart : a.AliasesApart root (root.involved f)) : Ty.Respelled f (root.untouched f) t t' := by
  cases spells with
  | ofRoot within => exact ⟨rfl, within.over_mono Respelling.freeVars_subset_untouched⟩
  | ofAlias normal _ free => exact respelling.respelled_of_free normal (free apart)

/-- **The layers on both sides are the same**, apart from the names of variables. -/
theorem Spells.layer (respelling : Respelling root f) (spells : a.Spells root f t t') :
    (∃ x y, t = .var x ∧ t' = .var y) ∨
      ∃ g : Ty → Ty, t' = ⟨t.shape.map g⟩ ∧ ∀ u ∈ t.children, a.Spells root f u (g u) := by
  cases spells with
  | ofRoot within =>
    by_cases isVar : ∃ x, t = .var x
    · obtain ⟨x, rfl⟩ := isVar
      exact Or.inl ⟨x, f x, rfl, rfl⟩
    · refine Or.inr ⟨Ty.respell f, ?_, fun u isChild => .ofRoot (within.of_mem_children isChild)⟩
      exact Ty.respell_node respelling.injective within fun x same => isVar ⟨x, same⟩
  | ofAlias normal declarable free =>
    have same : t = ⟨t.shape.map id⟩ := by
      rw [Shape.map_id]
      cases t
      rfl
    refine Or.inr ⟨id, same, fun u isChild => ?_⟩
    refine .ofAlias (normal.of_mem_children isChild) (declarable.of_mem_children isChild) ?_
    exact fun apart x occurs => free apart x (Ty.mem_freeVars.2 (Ty.mem_subterms_iff.2
      (Or.inr ⟨u, isChild, Ty.mem_freeVars.1 occurs⟩)))

/-- Aliases from aliases have no arguments, so an alias is one of the question's in any case. -/
theorem Spells.alias {label : TypeName} {args : List Ty} (spells : a.Spells root f (.aliasOf label args) t') :
    (Ty.aliasOf label args).IsWithin (.over {x | x ∈ root.freeVars}) ∧
      t' = (Ty.aliasOf label args).respell f := by
  cases spells with
  | ofRoot within => exact ⟨within, rfl⟩
  | ofAlias _ declarable _ =>
    obtain rfl : args = [] := declarable.self
    exact ⟨Ty.isWithin_applied trivial (List.forall_mem_nil _), rfl⟩

/-! ### Interfaces side by side -/

/-- **What is known of two interfaces side by side**, in methods for which nothing that is joined involves the
names: as many overloads, and respelled ones if nothing at all involves the names. -/
def Agrees (a : Analysis) (root : Ty) (f : Name → Name) (t : Ty) (i i' : Interface) : Prop :=
  ∀ name, a.JoinsApart root (root.involved f) t name →
    Interface.Matches (fun o o' => a.KeepsApart root (root.involved f) t name →
      Overload.Respelled f (root.untouched f) o o') name i i'

variable {i i' : Interface}

/-- Interfaces that are joined of nothing. -/
theorem agrees_of_respells {kind kind' : Session → Prop} {x x' : AnalysisM Interface}
    (parallel : Parallel kind kind' x x'
      (Interface.Respells root f (a.KeepsApart root (root.involved f) t))) :
    Parallel kind kind' x x' (a.Agrees root f t) :=
  parallel.imp fun _ _ respells name _ => respells name

/-- What is known of a type that another one leads to is known of that one. -/
theorem Agrees.mono (agrees : a.Agrees root f u i i')
    (joins : ∀ name, a.JoinsApart root (root.involved f) t name →
      a.JoinsApart root (root.involved f) u name)
    (all : ∀ name, a.KeepsApart root (root.involved f) t name →
      a.KeepsApart root (root.involved f) u name) : a.Agrees root f t i i' := fun name apart =>
  (agrees name (joins name apart)).imp fun _ _ respelled apart => respelled (all name apart)

theorem Agrees.step (agrees : a.Agrees root f u i i') (step : a.env.Step root t u) :
    a.Agrees root f t i i' :=
  agrees.mono (fun _ apart => apart.step step) fun _ apart => apart.step step

variable {selfType selfType' : Ty} {includePrivate : Bool}

/-- **Joined interfaces**, side by side: the overloads of a method are respelled. -/
theorem agrees_joinAll (ignores : a.joinRule.IgnoresSpelling) (respelling : Respelling root f)
    (isJoined : t.IsJoined) {is is' : List Interface}
    (pairs : List.Forall₂ (a.Agrees root f t) is is') :
    a.Agrees root f t (a.joinRule.joinAll selfType includePrivate is)
      (a.joinRule.joinAll selfType' includePrivate is') := by
  intro name joins
  have apart : a.KeepsApart root (root.involved f) t name :=
    joins t Relation.ReflTransGen.refl isJoined
  have respelled : List.Forall₂ (Interface.Matches (Overload.Respelled f (root.untouched f)) name)
      is is' := pairs.imp fun i i' agrees => (agrees name joins).imp fun _ _ each => each apart
  exact (Interface.matches_joinAll (JoinRule.relates_respelled ignores respelling.injOn_untouched)
    respelled).imp fun _ _ respelled _ => respelled

theorem agrees_mergeAll {is is' : List Interface} (pairs : List.Forall₂ (a.Agrees root f t) is is') :
    a.Agrees root f t (.mergeAll selfType includePrivate is)
      (.mergeAll selfType' includePrivate is') := fun name joins =>
  Interface.matches_mergeAll (pairs.imp fun _ _ agrees => agrees name joins)

/-! ### The interface of any type, side by side -/

/-- All aliases that a type leads to are aliases that the receiver leads to. -/
def LeadsLikeRoot (a : Analysis) (root t : Ty) : Prop :=
  ∀ u, u.IsAlias → a.env.Reaches root t u → a.env.Reaches root root u

theorem LeadsLikeRoot.step (leads : a.LeadsLikeRoot root t) (step : a.env.Step root t u) :
    a.LeadsLikeRoot root u := fun v isAlias reached =>
  leads v isAlias (Relation.ReflTransGen.head step reached)

theorem LeadsLikeRoot.expanded {expanded : Ty} (leads : a.LeadsLikeRoot root t)
    (normal : expanded.IsNormal) (stops : a.env.Stops root t expanded) :
    a.LeadsLikeRoot root expanded := by
  intro u isAlias reached
  rcases stops.reaches_or normal reached with further | ⟨rfl, compound | rfl⟩
  · exact leads u isAlias further
  · rw [isAlias.not_isCompound] at compound
    cases compound
  · obtain ⟨_, _, same⟩ := isAlias
    cases same

variable {receivers receivers' : List Ty}

/-- **What an alias is expanded to**, side by side. -/
theorem spells_expandDeep (acyclic : a.env.arena.Acyclic) {label : TypeName} {args args' : List Ty}
    (some : args = [] ↔ args' = []) (normal : (Ty.aliasOf label args).IsNormal)
    (leads : a.LeadsLikeRoot root (.aliasOf label args)) :
    Parallel (Session.OnWay a receivers) (Session.OnWay a receivers') (a.expandDeep (.aliasOf label args))
      (a.expandDeep (.aliasOf label args')) fun expanded expanded' => expanded = expanded' ∧
        a.Spells root f expanded expanded ∧ a.env.Stops root (.aliasOf label args) expanded ∧
          expanded.IsNormal := by
  have isAlias : (Ty.aliasOf label args).IsAlias := ⟨label, args, rfl⟩
  have known := (((expandDeep_stops acyclic root (.aliasOf label args)).and
    (normal_expandDeep acyclic normal)).and
      ((expandDeep_ends acyclic .selfType (.aliasOf label args)).imp (fun _ expands => expands)
        fun _ _ => trivial) : Ends (Session.OnWay a receivers) _ _ _)
  refine ((parallel_expandDeep acyclic label some).and_ends known).imp ?_
  rintro expanded _ ⟨rfl, ⟨stops, isNormal⟩, expands⟩
  refine ⟨rfl, .ofAlias isNormal (expands.declarable (Or.inr isAlias)) ?_, stops, isNormal⟩
  intro apart x occurs
  obtain ⟨name, args', body, way, declared, inBody⟩ := freeVars_of_expands expands isNormal occurs
  have reached : a.env.Reaches root root (.aliasOf name args') :=
    leads _ ⟨name, args', rfl⟩ (Environment.reaches_of_self way)
  exact apart name args' body reached declared x inBody

/-- The two classes of truth values, joined. -/
theorem agrees_booleanInterface (acyclic : a.env.arena.Acyclic) (ignores : a.joinRule.IgnoresSpelling)
    (respelling : Respelling root f) (receiver : root.IsReceiver f selfType selfType')
    (isJoined : t.IsJoined) (classes : a.classesOf t = a.core.booleanClasses) :
    Parallel (Session.OnWay a receivers) (Session.OnWay a receivers')
      (a.booleanInterface includePrivate selfType) (a.booleanInterface includePrivate selfType')
      (a.Agrees root f t) := by
  have each : ∀ name ∈ a.core.booleanClasses, Parallel (Session.OnWay a receivers)
      (Session.OnWay a receivers') (a.instanceInterface name [] includePrivate selfType)
      (a.instanceInterface name [] includePrivate selfType') (a.Agrees root f t) := by
    intro name isBoolean
    refine agrees_of_respells (respells_instanceInterface acyclic respelling receiver
      (fun d declared method apart => ?_) (fun _ apart => KeepsApart.aliases apart) .nil)
    exact apart.members t d _ Relation.ReflTransGen.refl
      (.ofClass (by rw [classes]; exact isBoolean) declared)
  exact (Lockstep.mapM_forall₂ _ each).bind fun _ _ pairs =>
    Lockstep.pure (agrees_joinAll ignores respelling isJoined pairs)

section Step

variable {follow follow' : Ty → Ty → AnalysisM Interface}

/-- The interfaces that are followed on either side are known of. -/
def FollowsAlike (a : Analysis) (root : Ty) (f : Name → Name)
    (follow follow' : Ty → Ty → AnalysisM Interface) : Prop :=
  ∀ (receivers : List Ty) (selfType selfType' t t' : Ty),
    (∀ u ∈ receivers, u.IsWithin (.over {x | x ∈ root.freeVars})) →
    root.IsReceiver f selfType selfType' → (selfType ≠ .selfType → selfType = root) →
    a.LeadsLikeRoot root t → a.Spells root f t t' →
      Parallel (Session.OnWay a receivers) (Session.OnWay a (receivers.map (Ty.respell f)))
        (follow selfType t) (follow' selfType' t') (a.Agrees root f t)

/-- The receiver in place of the word `self`. -/
theorem agrees_self (respelling : Respelling root f) (next : a.FollowsAlike root f follow follow')
    (onWay : ∀ u ∈ receivers, u.IsWithin (.over {x | x ∈ root.freeVars}))
    (receiver : root.IsReceiver f selfType selfType')
    (isRoot : selfType ≠ .selfType → selfType = root) :
    Parallel (Session.OnWay a receivers) (Session.OnWay a (receivers.map (Ty.respell f)))
      (a.receiverLayer includePrivate follow selfType .selfType (.placeholder .selfType))
      (a.receiverLayer includePrivate follow' selfType' .selfType (.placeholder .selfType))
      (a.Agrees root f .selfType) := by
  have word : Ty.selfType.IsWithin (.over {x | x ∈ root.freeVars}) :=
    Ty.isWithin_of_children trivial rfl
  refine lockstep_receiverLayer_self ⟨?_, fun unknown => ?_⟩ trivial fun known => ?_
  · rintro rfl
    exact receiver.1
  · have same : selfType.respell f = Ty.selfType.respell f := receiver.1.symm.trans unknown
    exact Ty.respell_injective respelling.injective receiver.2 word same
  · obtain rfl := isRoot known
    have spells : a.Spells selfType f selfType selfType' := receiver.1 ▸ .ofRoot receiver.2
    exact (next receivers .selfType .selfType selfType selfType' onWay ⟨rfl, word⟩
      (fun other => absurd rfl other) (fun _ _ reached => reached) spells).imp
        fun _ _ agrees => agrees.step Environment.Step.ofSelf

/-- What an alias is expanded to in place of the alias. -/
theorem agrees_alias (acyclic : a.env.arena.Acyclic) (respelling : Respelling root f)
    (next : a.FollowsAlike root f follow follow')
    (onWay : ∀ u ∈ receivers, u.IsWithin (.over {x | x ∈ root.freeVars}))
    (receiver : root.IsReceiver f selfType selfType') (isRoot : selfType ≠ .selfType → selfType = root)
    {label : TypeName} {args args' : List Ty} (leads : a.LeadsLikeRoot root (.aliasOf label args))
    (spells : a.Spells root f (.aliasOf label args) (.aliasOf label args'))
    (some : args = [] ↔ args' = []) (results results' : List (AnalysisM Interface)) :
    Parallel (Session.OnWay a receivers) (Session.OnWay a (receivers.map (Ty.respell f)))
      (a.receiverLayer includePrivate follow selfType (.aliasOf label args)
        (.applied .ofAlias label results))
      (a.receiverLayer includePrivate follow' selfType' (.aliasOf label args')
        (.applied .ofAlias label results')) (a.Agrees root f (.aliasOf label args)) := by
  obtain ⟨within, respelled⟩ := spells.alias
  have again : .aliasOf label args ∈ receivers ↔
      .aliasOf label args' ∈ receivers.map (Ty.respell f) := by
    rw [respelled]
    refine ⟨List.mem_map_of_mem, fun member => ?_⟩
    obtain ⟨u, isOnWay, same⟩ := List.mem_map.1 member
    rwa [← Ty.respell_injective respelling.injective (onWay u isOnWay) within same]
  have normal : (Ty.aliasOf label args).IsNormal := (Ty.isWithin_over_iff.1 within).1
  refine lockstep_receiverLayer_alias again trivial
    (spells_expandDeep (f := f) acyclic some normal leads) ?_
  rintro expanded _ ⟨rfl, spells', stops, isNormal⟩
  have onWay' : ∀ u ∈ Ty.aliasOf label args :: receivers,
      u.IsWithin (.over {x | x ∈ root.freeVars}) := List.forall_mem_cons.2 ⟨within, onWay⟩
  have further := next _ _ _ _ _ onWay' receiver isRoot (leads.expanded isNormal stops) spells'
  rw [List.map_cons, ← respelled] at further
  exact further.imp fun _ _ agrees => agrees.mono (fun _ joins => joins.expanded isNormal stops)
    fun _ apart => apart.expanded isNormal stops

/-- The interfaces of the members of a union joined, those of an intersection laid over one another. -/
theorem agrees_members (ignores : a.joinRule.IgnoresSpelling) (respelling : Respelling root f)
    {connective : Connective} {members : List Ty} {g : Ty → Ty} {result result' : Ty → AnalysisM Interface}
    (each : ∀ u ∈ members, Parallel (Session.OnWay a receivers) (Session.OnWay a receivers')
      (result u) (result' (g u)) (a.Agrees root f ⟨.compound connective members⟩)) :
    Parallel (Session.OnWay a receivers) (Session.OnWay a receivers')
      (a.receiverLayer includePrivate follow selfType ⟨.compound connective members⟩
        (.compound connective (members.map result)))
      (a.receiverLayer includePrivate follow' selfType' ⟨.compound connective (members.map g)⟩
        (.compound connective ((members.map g).map result')))
      (a.Agrees root f ⟨.compound connective members⟩) := by
  have parts : Parallel (Session.OnWay a receivers) (Session.OnWay a receivers')
      ((members.map result).mapM id) (((members.map g).map result').mapM id)
      (List.Forall₂ (a.Agrees root f ⟨.compound connective members⟩)) := by
    rw [List.map_map, List.mapM_map, List.mapM_map]
    exact Lockstep.mapM_forall₂ members each
  cases connective with
  | union =>
    have isJoined : Ty.IsJoined ⟨.compound .union members⟩ := trivial
    exact parts.bind fun _ _ pairs => Lockstep.pure (agrees_joinAll ignores respelling isJoined pairs)
  | intersection => exact parts.bind fun _ _ pairs => Lockstep.pure (agrees_mergeAll pairs)

/-- **One step, side by side**: a layer, from the types behind it. -/
theorem agrees_receiverLayer (acyclic : a.env.arena.Acyclic) (ignores : a.joinRule.IgnoresSpelling)
    (respelling : Respelling root f) (next : a.FollowsAlike root f follow follow') :
    a.FollowsAlike root f
      (fun selfType => Ty.recurse (a.receiverLayer includePrivate follow selfType))
      (fun selfType' => Ty.recurse (a.receiverLayer includePrivate follow' selfType')) := by
  intro receivers selfType selfType' t t' onWay receiver isRoot leads spells
  induction t using Ty.induction generalizing t' with
  | step t ih =>
    -- A variable has no interface, whatever its name; apart from that the layers are the same.
    rcases spells.layer respelling with ⟨x, y, rfl, rfl⟩ | ⟨g, rfl, each⟩
    · exact Lockstep.throw trivial
    obtain ⟨s⟩ := t
    have ofClass : ∀ {name : TypeName}, name ∈ a.classesOf ⟨s⟩ → ∀ d,
        a.env.instanceDefinition name = .ok d → ∀ method,
          a.KeepsApart root (root.involved f) ⟨s⟩ method →
            d.KeepsApart a.env.arena d.typeParams method (root.involved f) :=
      fun isClass d declared method apart => apart.members ⟨s⟩ d _ Relation.ReflTransGen.refl
        (.ofClass isClass declared)
    have settles : ∀ method, a.KeepsApart root (root.involved f) ⟨s⟩ method →
        a.AliasesApart root (root.involved f) := fun _ apart => apart.aliases
    have children : ∀ u ∈ s.toList, a.AliasesApart root (root.involved f) →
        Ty.Respelled f (root.untouched f) u (g u) := fun u isChild =>
      (each u isChild).respelled respelling
    have lists : ∀ ts : List Ty, (∀ u ∈ ts, u ∈ s.toList) → List.Forall₂ (fun u u' =>
        a.AliasesApart root (root.involved f) → Ty.Respelled f (root.untouched f) u u') ts (ts.map g) :=
      fun ts parts => List.forall₂_map_right_iff.2
        (List.forall₂_same.2 fun u member => children u (parts u member))
    show Parallel _ _ (Ty.recurse _ ⟨s⟩) (Ty.recurse _ ⟨s.map g⟩) _
    rw [Ty.recurse_node, Ty.recurse_node]
    cases s with
    | base word =>
      cases word with
      | nil =>
        exact agrees_of_respells (respells_instanceInterface acyclic respelling receiver
          (ofClass List.mem_cons_self) settles .nil)
      | boolean => exact agrees_booleanInterface acyclic ignores respelling receiver trivial rfl
      | _ => exact Lockstep.throw trivial
    | placeholder word =>
      cases word with
      | selfType => exact agrees_self respelling next onWay receiver isRoot
      | _ => exact Lockstep.throw trivial
    | var name => exact Lockstep.throw trivial
    | literal value =>
      exact agrees_of_respells (respells_instanceInterface acyclic respelling receiver
        (ofClass List.mem_cons_self) settles .nil)
    | logic evidence => exact agrees_booleanInterface acyclic ignores respelling receiver trivial rfl
    | singleton name =>
      refine agrees_of_respells (respells_singletonInterface acyclic respelling receiver
        fun d declared method apart => ?_)
      exact KeepsApart.members apart _ d [] Relation.ReflTransGen.refl (.ofSingleton declared)
    | applied head name args =>
      cases head with
      | ofClass =>
        exact agrees_of_respells (respells_instanceInterface acyclic respelling receiver
          (ofClass List.mem_cons_self) settles (lists args fun _ member => member))
      | ofInterface =>
        refine agrees_of_respells (respells_interfaceInterface acyclic respelling receiver
          (fun d declared method apart => ?_) settles (lists args fun _ member => member))
        exact apart.members _ d _ Relation.ReflTransGen.refl (.ofInterface declared)
      | ofAlias =>
        exact agrees_alias acyclic respelling next onWay receiver isRoot leads spells
          List.map_eq_nil_iff.symm _ _
    | compound connective members =>
      refine agrees_members ignores respelling fun u isMember => ?_
      have step : a.env.Step root ⟨.compound connective members⟩ u := .ofMember isMember
      exact (ih u isMember _ (leads.step step) (each u isMember)).imp fun _ _ agrees => agrees.step step
    | tuple members =>
      exact agrees_of_respells (respells_tupleInterface acyclic respelling receiver
        (ofClass List.mem_cons_self) settles (lists members fun _ member => member))
    | record fields =>
      have pairs : List.Forall₂ (PlaceRespells root f (a.AliasesApart root (root.involved f))) fields
          (fields.map fun field => (field.1, g field.2)) :=
        List.forall₂_map_right_iff.2 (List.forall₂_same.2 fun field isField =>
          ⟨rfl, children field.2 (List.mem_map_of_mem isField)⟩)
      exact agrees_of_respells (respells_recordInterface acyclic respelling receiver
        (ofClass List.mem_cons_self) settles pairs)
    | proc params result =>
      refine agrees_of_respells (respells_procInterface acyclic respelling receiver
        (ofClass List.mem_cons_self) settles
        (fun apart => ⟨Params.map_congr fun u isParam => ?_, fun u isParam => ?_⟩) ?_)
      · exact (children u (List.mem_append_left _ isParam) apart).1
      · exact (children u (List.mem_append_left _ isParam) apart).2
      · exact children result (List.mem_append_right _ List.mem_cons_self)

end Step

/-- **The whole way, side by side**: as many steps as the bound allows. -/
theorem agrees_interfaceWithin (acyclic : a.env.arena.Acyclic) (ignores : a.joinRule.IgnoresSpelling)
    (respelling : Respelling root f) (bound : Nat) :
    a.FollowsAlike root f (a.interfaceWithin includePrivate bound)
      (a.interfaceWithin includePrivate bound) := by
  induction bound with
  | zero =>
    exact agrees_receiverLayer acyclic ignores respelling fun _ _ _ _ _ _ _ _ _ _ =>
      Lockstep.throw trivial
  | succ bound ih => exact agrees_receiverLayer acyclic ignores respelling ih

end Analysis

end SignatureAlgebra
