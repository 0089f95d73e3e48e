/-
**Asking for private members.**

Private members are there only if they are asked for. Whether a type has an interface, and if not why,
does not depend on them. They add methods, and a method that is there without them is there with them, as
long as no overloads are joined. Its overloads may be others, however, and then a join that was there may
be missing: in an intersection a private member takes the place of a public one of an earlier member, the
overloads for the places of a tuple or record are put in front of private ones, and private members use up
fresh names, so type parameters that have to be renamed get other names. A method that is disturbed in
none of these ways is not lost.

* `Analysis.Owns`, `Analysis.LeadsTo` — where the methods of a name come from.
* `Analysis.Undisturbed` — types at which private members leave the public method of a name as it is.
* `Analysis.Reveals` — what is known of the interfaces without and with private members.
* `Analysis.reveals_memberInterface`, `reveals_refine`, `reveals_joinAll`, `reveals_mergeAll` — layer by
  layer.
* `Analysis.interfaceFor_private` — the statement; `Analysis.interfaceFor_private_matters` — why not more
  holds.
-/
import SignatureAlgebra.Proofs.Analysis.History
import SignatureAlgebra.Proofs.Analysis.Layers

namespace SignatureAlgebra

/-- The names of the visible members. -/
theorem Definition.isSome_visible?_iff {d : Definition} {includePrivate : Bool} {name : Name} :
    (d.visible? includePrivate name).isSome ↔
      ∃ m ∈ d.members, m.name = name ∧ (includePrivate = true ∨ m.isPrivate = false) := by
  simp only [visible?, List.find?_isSome, List.mem_reverse, List.mem_filter, Bool.or_eq_true,
    Bool.not_eq_true', decide_eq_true_eq, and_assoc, and_comm]

theorem Ty.IsTruth.isJoined {t : Ty} (isTruth : t.IsTruth) : t.IsJoined := by
  rcases isTruth with rfl | ⟨_, rfl⟩
  · trivial
  · trivial

/-- A method is there exactly if its member is. -/
theorem Overloaded.isSome_eq {R : DeclaredOverload → Overload → Prop} {member : Option Member}
    {os : Option (List Overload)} (related : Overloaded R member os) : os.isSome = member.isSome := by
  cases related with
  | none => rfl
  | some _ => rfl

namespace Analysis

variable {a : Analysis} {selfType t u : Ty} {name : Name} {i i' : Interface}

/-! ### Where methods come from -/

/-- The methods that a structure has overloads of its own for. -/
def placed (a : Analysis) : Ty → List Name
  | .tuple _ => [a.core.elementGet, a.core.elementSet, a.core.first, a.core.last]
  | .record _ => [a.core.elementGet, a.core.elementSet]
  | .proc _ _ => [a.core.elementGet, a.core.call]
  | _ => []

/-- The methods for which a structure keeps the overloads of the class behind it as well. -/
def extended (a : Analysis) : Ty → List Name
  | .tuple _ => [a.core.elementGet, a.core.elementSet]
  | .record _ => [a.core.elementGet, a.core.elementSet]
  | _ => []

/-- **A type has a method of its own**, private or not: a member that is declared for it, or one of a
structure, which is not private. -/
inductive Owns (a : Analysis) : Ty → Name → Bool → Prop where
  | ofMember {t : Ty} {d : Definition} {replaced : List Name} {member : Member}
    (declares : a.Declares t d replaced) (isMember : member ∈ d.members) :
    Owns a t member.name member.isPrivate
  | ofPlace {t : Ty} {name : Name} (isPlaced : name ∈ a.placed t) : Owns a t name false

/-- A type leads to a type that has the method. -/
def LeadsTo (a : Analysis) (selfType t : Ty) (name : Name) (isPrivate : Bool) : Prop :=
  ∃ u, a.env.Reaches selfType t u ∧ a.Owns u name isPrivate

/-- **Private members leave the public method of a name as it is**, as far as it depends on this type. -/
structure Undisturbed (a : Analysis) (selfType t : Ty) (name : Name) : Prop where
  /-- No private member of the name is declared after the public one. -/
  last : ∀ d replaced, a.Declares t d replaced → ∀ member ∈ d.visible? false name,
    d.visible? true name = some member
  /-- Its type parameters are not renamed, so it does not matter which names are new. -/
  free : ∀ d replaced, a.Declares t d replaced → ∀ member ∈ d.visible? false name,
    ∀ declared ∈ member.overloads, ∀ q ∈ declared.signature.typeParams, q ∉ selfType.freeVars
  /-- The class behind a structure has no private member to go on with after the overloads for its places. -/
  places : name ∈ a.extended t → ¬ a.LeadsTo selfType t name true
  /-- In an intersection, no private member of the name comes after a public one. -/
  order : ∀ members, t = ⟨.compound .intersection members⟩ → members.Pairwise fun earlier later =>
    a.LeadsTo selfType earlier name false → ¬ a.LeadsTo selfType later name true

/-- At no type that this one leads to is the method disturbed. -/
def UndisturbedBelow (a : Analysis) (selfType t : Ty) (name : Name) : Prop :=
  ∀ u, a.env.Reaches selfType t u → a.Undisturbed selfType u name

/-- **Wherever overloads are joined, the method is disturbed nowhere below.** -/
def JoinsUndisturbed (a : Analysis) (selfType t : Ty) (name : Name) : Prop :=
  ∀ u, a.env.Reaches selfType t u → u.IsJoined → a.UndisturbedBelow selfType u name

/-! ### From a type to those that it leads to -/

theorem UndisturbedBelow.joins (below : a.UndisturbedBelow selfType t name) :
    a.JoinsUndisturbed selfType t name := fun _ reached _ v further => below v (reached.trans further)

theorem LeadsTo.step {isPrivate : Bool} (leads : a.LeadsTo selfType u name isPrivate)
    (step : a.env.Step selfType t u) : a.LeadsTo selfType t name isPrivate := by
  obtain ⟨v, reached, owns⟩ := leads
  exact ⟨v, Relation.ReflTransGen.head step reached, owns⟩

theorem UndisturbedBelow.step (below : a.UndisturbedBelow selfType t name) (step : a.env.Step selfType t u) :
    a.UndisturbedBelow selfType u name := fun v reached => below v (Relation.ReflTransGen.head step reached)

theorem JoinsUndisturbed.step (joins : a.JoinsUndisturbed selfType t name) (step : a.env.Step selfType t u) :
    a.JoinsUndisturbed selfType u name := fun v reached => joins v (Relation.ReflTransGen.head step reached)

/-- A union has no method of its own, nor has the word that adds nothing to unions. -/
theorem not_owns {isPrivate : Bool} (whole : t.isCompound .union = true ∨ t = .bottom) :
    ¬ a.Owns t name isPrivate := by
  intro owns
  cases owns with
  | ofMember declares _ => exact not_declares whole declares
  | ofPlace isPlaced =>
    rcases whole with compound | rfl
    · obtain ⟨members, rfl⟩ := Ty.eq_compound_of_isCompound compound
      cases isPlaced
    · cases isPlaced

/-- Neither is disturbed. -/
theorem undisturbed_of_whole (whole : t.isCompound .union = true ∨ t = .bottom) :
    a.Undisturbed selfType t name where
  last _ _ declares := absurd declares (not_declares whole)
  free _ _ declares := absurd declares (not_declares whole)
  places isExtended := by
    rcases whole with compound | rfl
    · obtain ⟨members, rfl⟩ := Ty.eq_compound_of_isCompound compound
      cases isExtended
    · cases isExtended
  order members same := by
    subst same
    rcases whole with other | other
    · cases other
    · cases other

section Expanded

variable {body : Ty} (normal : body.IsNormal) (stops : a.env.Stops selfType t body)

include normal stops

theorem LeadsTo.expanded {isPrivate : Bool} (leads : a.LeadsTo selfType body name isPrivate) :
    a.LeadsTo selfType t name isPrivate := by
  obtain ⟨u, reached, owns⟩ := leads
  rcases stops.reaches_or normal reached with further | ⟨rfl, whole⟩
  · exact ⟨u, further, owns⟩
  · exact absurd owns (not_owns whole)

theorem UndisturbedBelow.expanded (below : a.UndisturbedBelow selfType t name) :
    a.UndisturbedBelow selfType body name := by
  intro u reached
  rcases stops.reaches_or normal reached with further | ⟨rfl, whole⟩
  · exact below u further
  · exact undisturbed_of_whole whole

theorem JoinsUndisturbed.expanded (joins : a.JoinsUndisturbed selfType t name) :
    a.JoinsUndisturbed selfType body name := by
  intro u reached isJoined
  obtain ⟨v, way, isJoined', rfl | ⟨rfl, stops'⟩⟩ := stops.joined normal reached isJoined
  · exact joins u way isJoined
  · exact (joins v way isJoined').expanded normal stops'

end Expanded

/-! #### The receiver in place of the word for it -/

theorem LeadsTo.ofSelf {isPrivate : Bool} (leads : a.LeadsTo .selfType t name isPrivate) :
    a.LeadsTo selfType t name isPrivate := by
  obtain ⟨u, reached, owns⟩ := leads
  exact ⟨u, Environment.reaches_of_self reached, owns⟩

theorem Undisturbed.ofSelf (undisturbed : a.Undisturbed selfType t name) :
    a.Undisturbed .selfType t name where
  last := undisturbed.last
  free _ _ _ _ _ _ _ _ _ := nofun
  places isExtended leads := undisturbed.places isExtended leads.ofSelf
  order members same := (undisturbed.order members same).imp fun apart leads leads' =>
    apart leads.ofSelf leads'.ofSelf

theorem UndisturbedBelow.ofSelf (below : a.UndisturbedBelow selfType .selfType name) :
    a.UndisturbedBelow .selfType selfType name := fun u reached =>
  (below u (Relation.ReflTransGen.head .ofSelf (Environment.reaches_of_self reached))).ofSelf

theorem JoinsUndisturbed.ofSelf (joins : a.JoinsUndisturbed selfType .selfType name) :
    a.JoinsUndisturbed .selfType selfType name := fun u reached isJoined v further =>
  (joins u (Relation.ReflTransGen.head .ofSelf (Environment.reaches_of_self reached)) isJoined v
    (Environment.reaches_of_self further)).ofSelf

/-! #### Types that lead to no alias -/

theorem undisturbedBelow_compound {c : Connective} {members : List Ty}
    (here : a.Undisturbed selfType ⟨.compound c members⟩ name)
    (each : ∀ v ∈ members, a.UndisturbedBelow selfType v name) :
    a.UndisturbedBelow selfType ⟨.compound c members⟩ name := by
  intro u reached
  rcases Relation.ReflTransGen.cases_head reached with rfl | ⟨v, step, further⟩
  · exact here
  · cases step with
    | ofMember isMember => exact each v isMember u further

theorem Declares.of_instanceOf {label : TypeName} {args : List Ty} {d : Definition} {replaced : List Name}
    (declares : a.Declares (.instanceOf label args) d replaced) : a.env.instanceDefinition label = .ok d := by
  cases declares with
  | ofClass isClass declared => exact List.mem_singleton.1 isClass ▸ declared

/-- The members of a class are all that it has. -/
theorem LeadsTo.of_instanceOf {label : TypeName} {args : List Ty} {isPrivate : Bool} {d : Definition}
    (leads : a.LeadsTo selfType (.instanceOf label args) name isPrivate)
    (declared : a.env.instanceDefinition label = .ok d) :
    ∃ member ∈ d.members, member.name = name ∧ member.isPrivate = isPrivate := by
  obtain ⟨u, reached, owns⟩ := leads
  rcases Relation.ReflTransGen.cases_head reached with rfl | ⟨v, step, _⟩
  · cases owns with
    | @ofMember _ _ member declares isMember =>
      obtain rfl := Except.ok.inj (declared.symm.trans declares.of_instanceOf)
      exact ⟨member, isMember, rfl, rfl⟩
    | ofPlace isPlaced => cases isPlaced
  · cases step

theorem undisturbedBelow_instanceOf {label : TypeName} {args : List Ty} {d : Definition}
    (declared : a.env.instanceDefinition label = .ok d)
    (each : ∀ member ∈ d.visible? false name, d.visible? true name = some member ∧
      ∀ declared ∈ member.overloads, ∀ q ∈ declared.signature.typeParams, q ∉ selfType.freeVars) :
    a.UndisturbedBelow selfType (.instanceOf label args) name := by
  intro u reached
  rcases Relation.ReflTransGen.cases_head reached with rfl | ⟨v, step, _⟩
  · constructor
    case last =>
      intro d' replaced declares member visible
      obtain rfl := Except.ok.inj (declared.symm.trans declares.of_instanceOf)
      exact (each member visible).1
    case free =>
      intro d' replaced declares member visible
      obtain rfl := Except.ok.inj (declared.symm.trans declares.of_instanceOf)
      exact (each member visible).2
    case places => exact nofun
    case order => exact nofun
  · cases step

theorem undisturbed_intersection {members : List Ty} (order : members.Pairwise fun earlier later =>
      a.LeadsTo selfType earlier name false → ¬ a.LeadsTo selfType later name true) :
    a.Undisturbed selfType ⟨.compound .intersection members⟩ name where
  last _ _ declares := by
    cases declares with
    | ofClass isClass _ => cases isClass
  free _ _ declares := by
    cases declares with
    | ofClass isClass _ => cases isClass
  places isExtended := by cases isExtended
  order _ same := by
    obtain rfl := (Shape.compound.inj (Ty.node.inj same)).2
    exact order

/-! ### The interfaces without and with private members -/

/-- **What is known of the two interfaces of a type**, without and with private members, in the method of
a name. If the method is not disturbed where it is joined, it stays. If it is disturbed nowhere, its
overloads are the same, and it is added only where there is a private one. -/
structure Reveals (a : Analysis) (selfType t : Ty) (name : Name) (i i' : Interface) : Prop where
  kept : a.JoinsUndisturbed selfType t name → (i.find? name).isSome → (i'.find? name).isSome
  same : a.UndisturbedBelow selfType t name → ∀ os, i.find? name = some os → i'.find? name = some os
  added : a.UndisturbedBelow selfType t name → (i'.find? name).isSome → i.find? name = none →
    a.LeadsTo selfType t name true
  shown : (i.find? name).isSome → a.LeadsTo selfType t name false

theorem Reveals.step (reveals : a.Reveals selfType u name i i') (step : a.env.Step selfType t u) :
    a.Reveals selfType t name i i' where
  kept joins := reveals.kept (joins.step step)
  same below := reveals.same (below.step step)
  added below present absent := (reveals.added (below.step step) present absent).step step
  shown present := (reveals.shown present).step step

theorem Reveals.expanded {body : Ty} (normal : body.IsNormal)
    (stops : a.env.Stops selfType t body) (reveals : a.Reveals selfType body name i i') :
    a.Reveals selfType t name i i' where
  kept joins := reveals.kept (joins.expanded normal stops)
  same below := reveals.same (below.expanded normal stops)
  added below present absent :=
    (reveals.added (below.expanded normal stops) present absent).expanded normal stops
  shown present := (reveals.shown present).expanded normal stops

theorem Reveals.ofSelf (reveals : a.Reveals .selfType selfType name i i') :
    a.Reveals selfType .selfType name i i' where
  kept joins := reveals.kept joins.ofSelf
  same below := reveals.same below.ofSelf
  added below present absent := (reveals.added below.ofSelf present absent).ofSelf.step .ofSelf
  shown present := (reveals.shown present).ofSelf.step .ofSelf

/-- Where no private member has the name, the method is there in both interfaces or in neither. -/
theorem Reveals.find?_eq (reveals : a.Reveals selfType t name i i')
    (below : a.UndisturbedBelow selfType t name) (alone : ¬ a.LeadsTo selfType t name true) :
    i.find? name = i'.find? name := by
  cases found : i.find? name with
  | some os => exact (reveals.same below os found).symm
  | none =>
    by_contra other
    exact alone (reveals.added below (Option.isSome_iff_ne_none.2 (Ne.symm other)) found)

/-! #### Declared members -/

theorem reveals_memberInterface (acyclic : a.env.arena.Acyclic) {d : Definition} {replaced : List Name}
    {filled : Substitution} {s s' : Session} (declares : a.Declares t d replaced)
    (known : filled.slot .selfType = some selfType) (coherent : s.Coherent a) (coherent' : s'.Coherent a) :
    a.Reveals selfType t name (a.memberInterface d filled false selfType s).1
      (a.memberInterface d filled true selfType s').1 := by
  have without := (find?_memberInterface a d filled false selfType s name).isSome_eq
  have all := (find?_memberInterface a d filled true selfType s' name).isSome_eq
  constructor
  case kept =>
    intro _ present
    rw [without, Definition.isSome_visible?_iff] at present
    obtain ⟨m, isMember, named, _⟩ := present
    rw [all, Definition.isSome_visible?_iff]
    exact ⟨m, isMember, named, Or.inl rfl⟩
  case same =>
    intro below os found
    have here := below t Relation.ReflTransGen.refl
    have isVisible : (d.visible? false name).isSome := by
      rw [← without, found]
      rfl
    obtain ⟨member, visible⟩ := Option.isSome_iff_exists.1 isVisible
    have visible' : d.visible? false name = d.visible? true name :=
      visible.trans (here.last d replaced declares member visible).symm
    rw [← found]
    exact (find?_memberInterface_eq acyclic known coherent coherent' visible'
      (here.free d replaced declares)).symm
  case added =>
    intro _ present absent
    rw [all, Definition.isSome_visible?_iff] at present
    obtain ⟨m, isMember, rfl, _⟩ := present
    have isPrivate : m.isPrivate = true := by
      by_contra isPublic
      have isVisible : (d.visible? false m.name).isSome :=
        Definition.isSome_visible?_iff.2 ⟨m, isMember, rfl, Or.inr (by simpa using isPublic)⟩
      rw [← without, absent] at isVisible
      cases isVisible
    exact ⟨t, Relation.ReflTransGen.refl, isPrivate ▸ .ofMember declares isMember⟩
  case shown =>
    intro present
    rw [without, Definition.isSome_visible?_iff] at present
    obtain ⟨m, isMember, rfl, impossible | isPublic⟩ := present
    · cases impossible
    · exact ⟨t, Relation.ReflTransGen.refl, isPublic ▸ .ofMember declares isMember⟩

/-! #### Structures -/

/-- A method that a structure has overloads of its own for is there in any case. -/
theorem reveals_of_placed (isPlaced : name ∈ a.placed t) {os os' : List Overload}
    (found : i.find? name = some os) (found' : i'.find? name = some os')
    (same : a.UndisturbedBelow selfType t name → os = os') : a.Reveals selfType t name i i' where
  kept _ _ := Option.isSome_of_mem found'
  same below _ given := found'.trans ((congrArg some (same below).symm).trans (found.symm.trans given))
  added _ _ absent := nomatch found.symm.trans absent
  shown _ := ⟨t, Relation.ReflTransGen.refl, .ofPlace isPlaced⟩

/-- Only what interfaces find counts. -/
theorem Reveals.congr {j j' : Interface} (reveals : a.Reveals selfType t name i i')
    (found : j.find? name = i.find? name) (found' : j'.find? name = i'.find? name) :
    a.Reveals selfType t name j j' := by
  obtain ⟨kept, same, added, shown⟩ := reveals
  rw [← found] at kept same added shown
  rw [← found'] at kept same added
  exact ⟨kept, same, added, shown⟩

theorem Reveals.put (reveals : a.Reveals selfType t name i i') {method : Name}
    (isPlaced : method ∈ a.placed t) (os : List Overload) : a.Reveals selfType t name (i.put method os) (i'.put method os) := by
  have put := fun i : Interface => i.find?_put method name os
  by_cases here : name = method
  · simp only [if_pos here] at put
    exact reveals_of_placed (here ▸ isPlaced) (put i) (put i') fun _ => rfl
  · simp only [if_neg here] at put
    exact reveals.congr (put i) (put i')

theorem Reveals.putFirst (reveals : a.Reveals selfType t name i i') {method : Name}
    (isPlaced : method ∈ a.placed t) (isExtended : method ∈ a.extended t) (os : List Overload) :
    a.Reveals selfType t name (i.putFirst method os) (i'.putFirst method os) := by
  have put := fun i : Interface => i.find?_putFirst method name os
  by_cases here : name = method
  · simp only [if_pos here] at put
    refine reveals_of_placed (here ▸ isPlaced) (put i) (put i') fun below => ?_
    have alone := (below t Relation.ReflTransGen.refl).places (here ▸ isExtended)
    rw [reveals.find?_eq below alone]
  · simp only [if_neg here] at put
    exact reveals.congr (put i) (put i')

theorem reveals_refine (reveals : a.Reveals selfType t name i i') :
    a.Reveals selfType t name (a.refine t i) (a.refine t i') := by
  obtain ⟨s⟩ := t
  cases s with
  | tuple members =>
    exact (((reveals.putFirst (by simp [placed]) (by simp [extended]) _).putFirst (by simp [placed])
      (by simp [extended]) _).put (by simp [placed]) _).put (by simp [placed]) _
  | record fields =>
    exact (reveals.putFirst (by simp [placed]) (by simp [extended]) _).putFirst (by simp [placed])
      (by simp [extended]) _
  | proc params result => exact (reveals.put (by simp [placed]) _).put (by simp [placed]) _
  | _ => exact reveals

/-! #### Joined interfaces -/

/-- Joining a method that each interface has without private members comes to the same with them. -/
theorem find?_joinAll_same {pairs : List (Interface × Interface)}
    (each : ∀ pair ∈ pairs, a.Reveals selfType t name pair.1 pair.2)
    (below : a.UndisturbedBelow selfType t name) (present : ∀ pair ∈ pairs, (pair.1.find? name).isSome) :
    (a.joinRule.joinAll selfType false (pairs.map Prod.fst)).find? name =
      (a.joinRule.joinAll selfType true (pairs.map Prod.snd)).find? name := by
  refine Interface.find?_joinAll_congr ?_
  rw [List.forall₂_map_left_iff, List.forall₂_map_right_iff, List.forall₂_same]
  intro pair isPair
  obtain ⟨os, found⟩ := Option.isSome_iff_exists.1 (present pair isPair)
  exact found.trans ((each pair isPair).same below os found).symm

theorem reveals_joinAll (isJoined : t.IsJoined) {pairs : List (Interface × Interface)}
    (each : ∀ pair ∈ pairs, a.Reveals selfType t name pair.1 pair.2) :
    a.Reveals selfType t name (a.joinRule.joinAll selfType false (pairs.map Prod.fst))
      (a.joinRule.joinAll selfType true (pairs.map Prod.snd)) := by
  have lefts : ((a.joinRule.joinAll selfType false (pairs.map Prod.fst)).find? name).isSome →
      ∀ pair ∈ pairs, (pair.1.find? name).isSome := fun present =>
    List.forall_mem_map.1 (Interface.isSome_of_joinAll present)
  have still : a.UndisturbedBelow selfType t name → ∀ os,
      (a.joinRule.joinAll selfType false (pairs.map Prod.fst)).find? name = some os →
        (a.joinRule.joinAll selfType true (pairs.map Prod.snd)).find? name = some os := by
    intro below os found
    exact (find?_joinAll_same each below (lefts (Option.isSome_of_mem found))).symm.trans found
  constructor
  case kept =>
    intro joins present
    obtain ⟨os, found⟩ := Option.isSome_iff_exists.1 present
    exact Option.isSome_of_mem (still (joins t Relation.ReflTransGen.refl isJoined) os found)
  case same => exact still
  case added =>
    -- Were there no private one, each member would have the method without private members.
    intro below present absent
    by_contra alone
    have all : ∀ pair ∈ pairs, (pair.1.find? name).isSome := by
      intro pair isPair
      have present' : (pair.2.find? name).isSome :=
        List.forall_mem_map.1 (Interface.isSome_of_joinAll present) pair isPair
      by_contra absent'
      exact alone ((each pair isPair).added below present' (by simpa using absent'))
    rw [← find?_joinAll_same each below all, absent] at present
    cases present
  case shown =>
    intro present
    cases pairs with
    | nil => cases present
    | cons first rest => exact (each first List.mem_cons_self).shown (lefts present first List.mem_cons_self)

/-! #### Interfaces laid over one another -/

/-- The last method of a name stays the last, unless a private one comes later. -/
theorem find?_mergeAll_same {members : List Ty} {pairs : List (Interface × Interface)}
    (each : List.Forall₂ (fun u pair => a.Reveals selfType u name pair.1 pair.2) members pairs)
    (below : ∀ u ∈ members, a.UndisturbedBelow selfType u name)
    (order : members.Pairwise fun earlier later =>
      a.LeadsTo selfType earlier name false → ¬ a.LeadsTo selfType later name true) (os : List Overload)
    (found : (Interface.mergeAll selfType false (pairs.map Prod.fst)).find? name = some os) :
    (Interface.mergeAll selfType true (pairs.map Prod.snd)).find? name = some os := by
  induction each with
  | nil => cases found
  | @cons u pair members pairs here rest ih =>
    obtain ⟨here', below⟩ := List.forall_mem_cons.1 below
    obtain ⟨apart, order⟩ := List.pairwise_cons.1 order
    rw [List.map_cons, Interface.find?_mergeAll_cons] at found ⊢
    cases later : (Interface.mergeAll selfType false (pairs.map Prod.fst)).find? name with
    | some os' =>
      rw [later] at found
      rw [ih below order (later.trans found)]
      rfl
    | none =>
      rw [later, Option.none_or] at found
      have isPublic := here.shown (Option.isSome_of_mem found)
      have absent : (Interface.mergeAll selfType true (pairs.map Prod.snd)).find? name = none := by
        rw [Interface.find?_mergeAll_eq_none_iff, List.forall_mem_map] at later ⊢
        intro pair' isPair
        obtain ⟨v, isMember, reveals⟩ := exists_left_of_forall₂ rest isPair
        have same := reveals.find?_eq (below v isMember) (apart v isMember isPublic)
        exact same.symm.trans (later pair' isPair)
      rw [absent, Option.none_or]
      exact here.same here' os found

theorem reveals_mergeAll {members : List Ty} {pairs : List (Interface × Interface)}
    (each : List.Forall₂ (fun u pair => a.Reveals selfType u name pair.1 pair.2) members pairs) :
    a.Reveals selfType ⟨.compound .intersection members⟩ name
      (.mergeAll selfType false (pairs.map Prod.fst)) (.mergeAll selfType true (pairs.map Prod.snd)) := by
  have parts : ∀ pair ∈ pairs, a.Reveals selfType ⟨.compound .intersection members⟩ name pair.1 pair.2 := by
    intro pair isPair
    obtain ⟨u, isMember, reveals⟩ := exists_left_of_forall₂ each isPair
    exact reveals.step (.ofMember isMember)
  constructor
  case kept =>
    intro joins present
    simp only [Interface.isSome_find?_mergeAll_iff, List.mem_map, exists_exists_and_eq_and] at present ⊢
    obtain ⟨pair, isPair, present⟩ := present
    exact ⟨pair, isPair, (parts pair isPair).kept joins present⟩
  case same =>
    intro below os found
    have order := (below _ Relation.ReflTransGen.refl).order members rfl
    exact find?_mergeAll_same each (fun u isMember => below.step (.ofMember isMember)) order os found
  case added =>
    intro below present absent
    simp only [Interface.isSome_find?_mergeAll_iff, List.mem_map, exists_exists_and_eq_and] at present
    rw [Interface.find?_mergeAll_eq_none_iff, List.forall_mem_map] at absent
    obtain ⟨pair, isPair, present⟩ := present
    exact (parts pair isPair).added below present (absent pair isPair)
  case shown =>
    intro present
    simp only [Interface.isSome_find?_mergeAll_iff, List.mem_map, exists_exists_and_eq_and] at present
    obtain ⟨pair, isPair, present⟩ := present
    exact (parts pair isPair).shown present

/-! ### Any type -/

theorem layers_reveals (acyclic : a.env.arena.Acyclic) :
    a.Layers false true fun selfType t i i' => ∀ name, a.Reveals selfType t name i i' where
  members declares known coherent coherent' _ :=
    reveals_memberInterface acyclic declares known coherent coherent'
  refines reveals name := reveals_refine (reveals name)
  truth isTruth each name := reveals_joinAll isTruth.isJoined fun pair isPair => each pair isPair name
  union := by
    intro selfType members pairs each name
    have isJoined : Ty.IsJoined ⟨.compound .union members⟩ := trivial
    refine reveals_joinAll isJoined fun pair isPair => ?_
    obtain ⟨u, isMember, reveals⟩ := exists_left_of_forall₂ each isPair
    exact (reveals name).step (.ofMember isMember)
  intersection each name := reveals_mergeAll (each.imp fun _ _ reveals => reveals name)
  ofAlias _ normal stops reveals name := (reveals name).expanded normal stops
  ofSelf reveals name := (reveals name).ofSelf

/-- **Asking for private members only adds methods**, unless they disturb a method that is joined: with
and without them the interface of a type is refused alike, for the same reason. If it is given, each
method that is there without them is there with them, if it is disturbed nowhere below the types at which
overloads are joined. In particular that is each method of a type that leads to no union and to no truth
value. -/
theorem interfaceFor_private (acyclic : a.env.arena.Acyclic) (names names' : Interner)
    (nextFresh nextFresh' : Nat) (events events' : List Event) (t selfType : Ty) :
    let s := a.after (.start names nextFresh) events
    let s' := a.after (.start names' nextFresh') events'
    (∀ e, (a.interfaceFor t false selfType s).1 = .error e ↔
      (a.interfaceFor t true selfType s').1 = .error e) ∧
    ∀ i i', (a.interfaceFor t false selfType s).1 = .ok i → (a.interfaceFor t true selfType s').1 = .ok i' →
      ∀ name, a.JoinsUndisturbed selfType t name → (i.find? name).isSome → (i'.find? name).isSome := by
  intro s s'
  have idle : a.Idle s := idle_after acyclic (idle_start a names nextFresh) events
  have idle' : a.Idle s' := idle_after acyclic (idle_start a names' nextFresh') events'
  have lockstep : Lockstep (Session.OnWay a []) (Session.OnWay a []) (a.interfaceFor t false selfType)
      (a.interfaceFor t true selfType) (fun i i' => ∀ name, a.Reveals selfType t name i i') Eq :=
    Lockstep.congr (interfaceFor_stable acyclic _ _) (interfaceFor_stable acyclic _ _)
      ((layers_reveals acyclic).lockstep acyclic _ fun _ _ _ => Iff.rfl)
  have outcomes : Outcomes _ _ (a.interfaceFor t false selfType s).1 (a.interfaceFor t true selfType s').1 :=
    (lockstep s s' ⟨idle.coherent, idle.receivers⟩ ⟨idle'.coherent, idle'.receivers⟩).1
  refine ⟨outcomes.error_iff, fun i i' given given' name undisturbed => ?_⟩
  rw [given, given'] at outcomes
  exact (outcomes name).kept undisturbed

/-! ### Methods that are lost -/

namespace Secrets

def shown : TypeName := .topLevel ⟨28⟩
def secret : TypeName := .topLevel ⟨29⟩
def likewise : TypeName := .topLevel ⟨30⟩
def generic : TypeName := .topLevel ⟨31⟩
def renamed : TypeName := .topLevel ⟨32⟩
def twice : TypeName := .topLevel ⟨33⟩
def read : Name := ⟨34⟩
def write : Name := ⟨35⟩

def varT : Name := ⟨26⟩
def freshT : Name := ⟨27⟩

/-- The texts of the two type variables are `T` and `T(1)`. -/
def names : Interner := ⟨Interner.initial.texts ++ ["T", "T(1)"]⟩

/-- An overload over an arena whose nodes are `nil` and `bool`. -/
def overload (owner : TypeName) (typeParams : List Name) (params : List NodeId) (result : NodeId) :
    DeclaredOverload :=
  ⟨⟨typeParams, ⟨{ DeclaredParams.empty with required := params.map .anonymous }, result⟩, none⟩,
    ⟨owner, .ofInstance⟩⟩

def classOf (typeParams : List Name) (members : List Member) : ClassEntry :=
  ⟨.ofClass, ⟨typeParams, members⟩, ⟨typeParams, []⟩⟩

/-- The method `read` is `() -> nil` in `shown`, private and `(nil) -> nil` in `secret`, first the one and
then the other in `twice`, and `() -> bool` in `likewise`. In `generic`, with a type parameter `T`, it is
`[T] () -> nil`, behind a private method, and in `renamed` it is `[T(1)] () -> nil`. Arrays have a private
method `[]`. -/
def ofSecrets : Analysis where
  env := { Environment.empty 0 with
    arena := ((Arena.empty 0).push (.base .nil)).push (.base .boolean)
    classes := [(shown, classOf [] [⟨read, false, [overload shown [] [] 0]⟩]),
      (secret, classOf [] [⟨read, true, [overload secret [] [0] 0]⟩]),
      (likewise, classOf [] [⟨read, false, [overload likewise [] [] 1]⟩]),
      (generic, classOf [varT] [⟨write, true, [overload generic [varT] [] 0]⟩,
        ⟨read, false, [overload generic [varT] [] 0]⟩]),
      (renamed, classOf [] [⟨read, false, [overload renamed [freshT] [] 0]⟩]),
      (twice, classOf [] [⟨read, false, [overload twice [] [] 0]⟩, ⟨read, true, [overload twice [] [0] 0]⟩]),
      (CoreNames.standard.array, classOf [varT]
        [⟨CoreNames.standard.elementGet, true, [overload CoreNames.standard.array [] [] 0]⟩]),
      (CoreNames.standard.hash, classOf [varT, freshT] [])] }
  core := .standard
  joinRule := .structural

theorem acyclic_ofSecrets : ofSecrets.env.arena.Acyclic :=
  ((Arena.acyclic_empty 0).push (by decide)).push (by decide)

/-- Whether a method is there. -/
def offers (includePrivate : Bool) (t : Ty) (name : Name) : Except Error Bool :=
  (ofSecrets.interfaceFor t includePrivate t (.start names 1)).1.map fun i => (i.find? name).isSome

theorem offers_eq_ok {includePrivate present : Bool} {t : Ty} {name : Name} :
    offers includePrivate t name = .ok present ↔
      ∃ i, (ofSecrets.interfaceFor t includePrivate t (.start names 1)).1 = .ok i ∧
        (i.find? name).isSome = present := map_eq_ok_iff

end Secrets

open Secrets

/-- The private method `read` of `secret` comes before the public one of `shown`, which takes its place
with and without private members. -/
theorem interfaceFor_private_read :
    let t : Ty := ⟨.compound .union [⟨.compound .intersection [.instanceOf secret [], .instanceOf shown []]⟩,
      .instanceOf likewise []]⟩
    ofSecrets.env.arena.Acyclic ∧ ofSecrets.JoinsUndisturbed t t read ∧
      ∃ i i', (ofSecrets.interfaceFor t false t (.start names 1)).1 = .ok i ∧
        (ofSecrets.interfaceFor t true t (.start names 1)).1 = .ok i' ∧
        (i.find? read).isSome ∧ (i'.find? read).isSome := by
  intro t
  have ofShown : ofSecrets.env.instanceDefinition shown =
      .ok (classOf [] [⟨read, false, [overload shown [] [] 0]⟩]).instances := by rfl
  have ofSecret : ofSecrets.env.instanceDefinition secret =
      .ok (classOf [] [⟨read, true, [overload secret [] [0] 0]⟩]).instances := by rfl
  have ofLikewise : ofSecrets.env.instanceDefinition likewise =
      .ok (classOf [] [⟨read, false, [overload likewise [] [] 1]⟩]).instances := by rfl
  have order : List.Pairwise (fun earlier later => ofSecrets.LeadsTo t earlier read false →
      ¬ ofSecrets.LeadsTo t later read true) [.instanceOf secret [], .instanceOf shown []] := by
    refine List.pairwise_pair.2 fun leads => ?_
    obtain ⟨member, isMember, _, isPublic⟩ := leads.of_instanceOf ofSecret
    obtain rfl := List.mem_singleton.1 isMember
    cases isPublic
  have below : ofSecrets.UndisturbedBelow t t read := by
    refine undisturbedBelow_compound (undisturbed_of_whole (Or.inl rfl)) ?_
    refine List.forall_mem_cons.2 ⟨undisturbedBelow_compound (undisturbed_intersection order) ?_,
      List.forall_mem_singleton.2 (undisturbedBelow_instanceOf ofLikewise (by decide))⟩
    exact List.forall_mem_cons.2 ⟨undisturbedBelow_instanceOf ofSecret (by decide),
      List.forall_mem_singleton.2 (undisturbedBelow_instanceOf ofShown (by decide))⟩
  have computed : offers false t read = .ok true := by decide +kernel
  obtain ⟨i, given, present⟩ := offers_eq_ok.1 computed
  obtain ⟨refused, kept⟩ := interfaceFor_private acyclic_ofSecrets names names 1 1 [] [] t t
  cases given' : (ofSecrets.interfaceFor t true t (.start names 1)).1 with
  | error e => exact nomatch given.symm.trans ((refused e).2 given')
  | ok i' =>
    have present' := kept i i' given given' read below.joins present
    exact ⟨acyclic_ofSecrets, below.joins, i, i', given, rfl, present, present'⟩

/-- **Private members can take methods away.** Each of these unions has a method that is lost once private
members are asked for: one that a private member takes the place of in an intersection, one that a private
member of the same class takes the place of, one whose type parameter gets another name, and one for the
places of an empty tuple, which has no overloads without those of arrays. -/
theorem interfaceFor_private_matters :
    let covered : Ty := ⟨.compound .intersection [.instanceOf shown [], .instanceOf secret []]⟩
    let unions : List (Ty × Name) :=
      [(⟨.compound .union [covered, .instanceOf likewise []]⟩, read),
        (⟨.compound .union [.instanceOf twice [], .instanceOf likewise []]⟩, read),
        (⟨.compound .union [.instanceOf generic [.var varT], .instanceOf renamed []]⟩, read),
        (⟨.compound .union [.tuple [], .record []]⟩, CoreNames.standard.elementGet)]
    ∀ lost ∈ unions, offers false lost.1 lost.2 = .ok true ∧ offers true lost.1 lost.2 = .ok false := by
  decide +kernel

end Analysis

end SignatureAlgebra
