/-
**What the result of a predicate says follows the definition that introduced it.**

The predicates of the base classes, such as `nil?`, have what their result says about the receiver in place
of the declared result. They keep it in every class they are copied to, and a method that takes the place of
one has its declared result. This is decided by the definition that introduced a method, and it is put into
overloads that are otherwise as they would be without it.

* `predicates`, `MethodDefinition.evidence?` — the predicates, and the definitions of them.
* `Analysis.interfaceThrough` — an interface with any change made to its overloads.
* `Analysis.interfaceThrough_run` — such a change makes no difference elsewhere.
* `IsMarked`, `Analysis.Builds.isMarked` — one overload.
* `Analysis.interface_introduced` — the statement.
-/
import SignatureAlgebra.Proofs.Analysis.Instances
import SignatureAlgebra.Proofs.Environment.Provenance

namespace SignatureAlgebra

/-! ### Predicates of the base classes -/

/-- The predicates of the base classes, and what their results say. -/
def predicates : List ((TypeName × Name) × Evidence) :=
  let of (owner method : String) : TypeName × Name := (.topLevel (.wellKnown owner), .wellKnown method)
  [(of "Object" "is_a?", .receiverIsArg), (of "Object" "kind_of?", .receiverIsArg),
    (of "Object" "instance_of?", .receiverIsArg), (of "Object" "nil?", .receiverIsNil),
    (of "NilClass" "nil?", .receiverIsNil), (of "BasicObject" "!", .not),
    (of "Module" "===", .argIsReceiver)]

/-- What the result of a method says, if its definition is that of a predicate. -/
def MethodDefinition.evidence? (method : MethodDefinition) : Option Evidence :=
  if method.level = .ofInstance then predicates.lookup (method.owner, method.name) else none

namespace Analysis

variable {a : Analysis}

theorem predicateEvidence?_eq (standard : a.core = .standard) (method : MethodDefinition) :
    a.predicateEvidence? method.name ⟨method.owner, method.level⟩ = method.evidence? := by
  obtain ⟨owner, level, name, _, _⟩ := method
  cases level with
  | ofSingleton => rfl
  | ofInstance =>
    simp only [predicateEvidence?, MethodDefinition.evidence?, predicates, Environment.lookup_entered,
      standard, CoreNames.standard, Prod.mk.injEq, reduceCtorEq, if_false, if_true, List.lookup_nil]
    by_cases isObject : owner = .topLevel (.wellKnown "Object")
    · have others : ∀ text ∈ ["NilClass", "BasicObject", "Module"],
          owner ≠ .topLevel (.wellKnown text) := isObject ▸ by decide
      simp only [List.mem_cons, List.not_mem_nil] at others ⊢
      grind
    · simp only [isObject, false_and, if_false]

/-! ### Members through a hook -/

/-- The overloads of a member, each changed by a hook. -/
def overloadsThrough (a : Analysis) (hook : Name → Overload → Overload) (substitution : Substitution)
    (selfType : Ty) (member : Member) : StateM Session (List Overload) :=
  member.overloads.mapM fun declared => do
    let overload ← a.instantiate declared.signature selfType (some substitution) (some declared.origin)
    return hook member.name overload

/-- Members, instantiated for a receiver one after the other, each overload changed by a hook. -/
def membersThrough (a : Analysis) (hook : Name → Overload → Overload) (substitution : Substitution)
    (selfType : Ty) : List Member → Interface → StateM Session Interface
  | [], i => return i
  | member :: rest, i => do
    let overloads ← a.overloadsThrough hook substitution selfType member
    a.membersThrough hook substitution selfType rest (i.put member.name overloads)

/-- The visible members of a definition, each overload changed by a hook. -/
def interfaceThrough (a : Analysis) (hook : Name → Overload → Overload) (d : Definition)
    (substitution : Substitution) (includePrivate : Bool) (selfType : Ty) : StateM Session Interface :=
  a.membersThrough hook substitution selfType (d.members.filter fun m => includePrivate || !m.isPrivate)
    (.empty selfType includePrivate)

/-- What the results of predicates say is put in by a hook. -/
theorem memberInterface_eq_through (a : Analysis) (d : Definition) (substitution : Substitution)
    (includePrivate : Bool) (selfType : Ty) :
    a.memberInterface d substitution includePrivate selfType =
      a.interfaceThrough a.withEvidence d substitution includePrivate selfType := by
  have same : ∀ (members : List Member) (i : Interface), a.membersFrom substitution selfType members i =
      a.membersThrough a.withEvidence substitution selfType members i := by
    intro members
    induction members with
    | nil => exact fun _ => rfl
    | cons member rest ih =>
      intro i
      rw [membersFrom, membersThrough]
      exact congrArg _ (funext fun overloads => ih _)
  exact same _ _

/-- Changing each result of a list of actions changes the list of results and nothing else. -/
theorem mapM_return {α β γ σ : Type} (f : α → StateM σ β) (g : β → γ) (values : List α) (s : σ) :
    (values.mapM (fun v => do return g (← f v)) : StateM σ (List γ)) s =
      let run := values.mapM f s
      (run.1.map g, run.2) := by
  induction values generalizing s with
  | nil => rfl
  | cons first rest ih =>
    rw [List.mapM_cons, List.mapM_cons]
    have later := ih (f first s).2
    exact congrArg (fun run : List γ × σ => (g (f first s).1 :: run.1, run.2)) later

/-- A hook changes the overloads of a member and nothing else. -/
theorem overloadsThrough_run (a : Analysis) (hook : Name → Overload → Overload)
    (substitution : Substitution) (selfType : Ty) (member : Member) (s : Session) :
    a.overloadsThrough hook substitution selfType member s =
      let plain := a.overloadsThrough (fun _ o => o) substitution selfType member s
      (plain.1.map (hook member.name), plain.2) := by
  rw [overloadsThrough, overloadsThrough, mapM_return, mapM_return]
  simp only [List.map_id']

/-- **A hook changes the overloads of each method and nothing else.** -/
theorem interfaceThrough_run (a : Analysis) (hook : Name → Overload → Overload) (d : Definition)
    (substitution : Substitution) (includePrivate : Bool) (selfType : Ty) (s : Session) :
    let run := a.interfaceThrough hook d substitution includePrivate selfType s
    let plain := a.interfaceThrough (fun _ o => o) d substitution includePrivate selfType s
    run.2 = plain.2 ∧ ∀ name, run.1.find? name = (plain.1.find? name).map (List.map (hook name)) := by
  have each : ∀ (members : List Member) (i plain : Interface) (s : Session),
      (∀ name, i.find? name = (plain.find? name).map (List.map (hook name))) →
        let run := a.membersThrough hook substitution selfType members i s
        let run' := a.membersThrough (fun _ o => o) substitution selfType members plain s
        run.2 = run'.2 ∧ ∀ name, run.1.find? name = (run'.1.find? name).map (List.map (hook name)) := by
    intro members
    induction members with
    | nil => exact fun _ _ _ related => ⟨rfl, related⟩
    | cons member rest ih =>
      intro i plain s related
      let here := a.overloadsThrough (fun _ o => o) substitution selfType member s
      have run : a.membersThrough hook substitution selfType (member :: rest) i s =
          a.membersThrough hook substitution selfType rest
            (i.put member.name (here.1.map (hook member.name))) here.2 := by
        show a.membersThrough hook substitution selfType rest
          (i.put member.name (a.overloadsThrough hook substitution selfType member s).1)
          (a.overloadsThrough hook substitution selfType member s).2 = _
        rw [overloadsThrough_run]
      rw [run]
      refine ih _ (plain.put member.name here.1) here.2 fun name => ?_
      show (i.methods.insert _ _).find? name = Option.map _ ((plain.methods.insert _ _).find? name)
      rw [NameMap.find?_insert, NameMap.find?_insert]
      by_cases same : name = member.name
      · rw [if_pos same, if_pos same, same, Option.map_some]
      · rw [if_neg same, if_neg same]
        exact related name
  exact each _ _ _ s fun _ => rfl

end Analysis

/-! ### What an overload of an introduced method is -/

/-- What a substitution puts in place of variables and placeholders in a method whose type parameters have
got entries; what it binds goes before them. -/
def Substitution.overEntries (substitution : Substitution) (typeParams entries : List Name) : Replacement :=
  { substitution.replacement with
    var := fun q => (substitution.bindings.find? q).getD
      (.var (((NameMap.ofLists typeParams entries).find? q).getD q)) }

/-- **An overload that an interface has, beside the one it would have without predicates.** Only the result
may be another: what the result of a predicate says, if the definition that introduced the method is that of
a predicate, and else the declared result with types in place of variables and placeholders. -/
structure IsMarked (arena : Arena) (substitution : Substitution) (method : MethodDefinition)
    (signature : DeclaredMethod NodeId) (plain built : Overload) : Prop where
  typeParams : built.type.typeParams = plain.type.typeParams
  params : built.type.params = plain.type.params
  block : built.type.block = plain.type.block
  origin : built.origin = some ⟨method.owner, method.level⟩
  marked : ∀ evidence, method.evidence? = some evidence → built.type.result = .logic evidence
  unmarked : method.evidence? = none → built = plain ∧
    built.type.result = (arena.toTy signature.function.result).replace
      (substitution.overEntries signature.typeParams built.type.typeParams)

namespace Analysis

variable {a : Analysis} {s later : Session} {substitution : Substitution} {selfType u : Ty}

/-- A built overload is the declared method type, with everything replaced at once. -/
theorem Builds.eq_overEntries (acyclic : a.env.arena.Acyclic) (coherent : s.Coherent a)
    (filled : substitution.slot .selfType = some u) {name : Name} {declared : DeclaredOverload}
    {built : Overload} (builds : a.Builds substitution selfType name s later declared built) :
    built = a.withEvidence name
      ⟨{ (a.env.arena.methodType declared.signature).replace
            (substitution.overEntries declared.signature.typeParams built.type.typeParams) with
          typeParams := built.type.typeParams }, some declared.origin⟩ := by
  obtain ⟨renamed, replaced, unfilled, vars⟩ := builds.eq_replace acyclic coherent filled
  have slots : (renamed.merge substitution true).slot = substitution.slot := funext fun word => by
    rw [Substitution.slot_merge, unfilled, Option.or_none]
  have same : (renamed.merge substitution true).replacement =
      substitution.overEntries declared.signature.typeParams built.type.typeParams := by
    rw [Substitution.overEntries, Substitution.replacement, Substitution.replacement, slots]
    exact congrArg (fun var => ({ Replacement.identity with
      var := var
      placeholder := fun word => (substitution.slot word).getD ⟨.placeholder word⟩ } : Replacement))
      (funext vars)
  rw [← same]
  exact replaced

/-- What the result of a predicate says takes the place of the result only. -/
theorem fields_withEvidence (a : Analysis) (name : Name) (o : Overload) :
    (a.withEvidence name o).origin = o.origin ∧
      (a.withEvidence name o).type.params = o.type.params ∧
      (a.withEvidence name o).type.block = o.type.block := by
  unfold withEvidence
  split <;> exact ⟨rfl, rfl, rfl⟩

/-- **One overload of a method that was introduced.** -/
theorem Builds.isMarked (acyclic : a.env.arena.Acyclic) (standard : a.core = .standard)
    (coherent : s.Coherent a) (filled : substitution.slot .selfType = some u)
    {method : MethodDefinition} {signature : DeclaredMethod NodeId} {plain : Overload}
    (builds : a.Builds substitution selfType method.name s later
      ⟨signature, ⟨method.owner, method.level⟩⟩ (a.withEvidence method.name plain)) :
    IsMarked a.env.arena substitution method signature plain (a.withEvidence method.name plain) := by
  have replaced := builds.eq_overEntries acyclic coherent filled
  obtain ⟨kept, params, block⟩ := fields_withEvidence a method.name plain
  have origin : plain.origin = some ⟨method.owner, method.level⟩ := by
    rw [← kept, replaced, (fields_withEvidence a method.name _).1]
  have evidence : ∀ o : Overload, o.origin = some ⟨method.owner, method.level⟩ →
      o.origin.bind (a.predicateEvidence? method.name) = method.evidence? := by
    intro o isOrigin
    rw [isOrigin]
    exact predicateEvidence?_eq standard method
  refine ⟨typeParams_withEvidence a method.name plain, params, block, kept.trans origin,
    fun e isPredicate => ?_, fun noPredicate => ⟨?_, ?_⟩⟩
  · rw [withEvidence_of_some ((evidence plain origin).trans isPredicate)]
    rfl
  · exact withEvidence_of_none ((evidence plain origin).trans noPredicate)
  · have built := replaced.trans (withEvidence_of_none ((evidence _ rfl).trans noPredicate))
    exact congrArg (fun o : Overload => o.type.result) built

/-- The overloads of a method that was introduced, beside those it would have without predicates. -/
theorem marks_of_overloaded {method : Option MethodDefinition} {plains : Option (List Overload)}
    {R : DeclaredOverload → Overload → Prop} {name : Name}
    {S : MethodDefinition → DeclaredMethod NodeId → Overload → Overload → Prop}
    (each : ∀ m ∈ method, ∀ signature plain,
      R ⟨signature, ⟨m.owner, m.level⟩⟩ (a.withEvidence name plain) →
        S m signature plain (a.withEvidence name plain))
    (related : Overloaded R (method.map MethodDefinition.member)
      (plains.map (List.map (a.withEvidence name)))) :
    ∃ found : Option (List (Overload × Overload)),
      plains = found.map (List.map Prod.fst) ∧
      plains.map (List.map (a.withEvidence name)) = found.map (List.map Prod.snd) ∧
      Option.Rel (fun m pairs => List.Forall₂ (fun signature pair => S m signature pair.1 pair.2)
        m.signatures pairs) method found := by
  cases method with
  | none =>
    cases plains with
    | none => exact ⟨none, rfl, rfl, .none⟩
    | some os => cases related
  | some m =>
    cases plains with
    | none => cases related
    | some os =>
      obtain ⟨pairs⟩ := related
      rw [MethodDefinition.member, List.forall₂_map_left_iff, List.forall₂_map_right_iff] at pairs
      refine ⟨some (os.map fun o => (o, a.withEvidence name o)), ?_, ?_, .some ?_⟩
      · simp only [Option.map_some, List.map_map, Function.comp_def, List.map_id']
      · simp only [Option.map_some, List.map_map, Function.comp_def]
      · rw [List.forall₂_map_right_iff]
        exact pairs.imp fun signature o built => each m rfl signature o built

/-- **Flow evidence follows the definition that introduced a method.** Take any changes of an environment,
made or refused, and an instance of a class with as many arguments as the class has type parameters. It has
an interface, at any time, and its methods are the visible ones that were introduced into the class: each has
one overload for each signature of the definition that introduced it, as it would be without predicates,
except that the overloads of a predicate of a base class have what their result says as their result. -/
theorem interface_introduced (arenaId : Nat) (changes : List Change) (joinRule : JoinRule)
    (acyclic : (Environment.built arenaId changes).arena.Acyclic) {name : TypeName} {d : Definition}
    {args : List Ty} (declared : (Environment.built arenaId changes).instanceDefinition name = .ok d)
    (length : d.typeParams.length = args.length) (includePrivate : Bool) (names : Interner)
    (nextFresh : Nat) (events : List Event) :
    let a : Analysis := ⟨.built arenaId changes, .standard, joinRule⟩
    let receiver := Ty.instanceOf name args
    let s := a.after (.start names nextFresh) events
    let substitution := Substitution.ofInstance name d.typeParams args receiver
    let plain := a.interfaceThrough (fun _ o => o) d substitution includePrivate receiver s
    ∃ i, a.interface receiver includePrivate s = (.ok i, plain.2) ∧
      ∀ method, ∃ found : Option (List (Overload × Overload)),
        plain.1.find? method = found.map (List.map Prod.fst) ∧
        i.find? method = found.map (List.map Prod.snd) ∧
        Option.Rel (fun definition pairs => List.Forall₂ (fun signature pair =>
            IsMarked a.env.arena substitution definition signature pair.1 pair.2)
            definition.signatures pairs)
          ((introducer? arenaId changes (.instancesOf name) method).filter fun definition =>
            includePrivate || !definition.isPrivate) found := by
  intro a receiver s substitution plain
  have coherent : s.Coherent a := (idle_after acyclic (idle_start a names nextFresh) events).coherent
  have explained := Environment.isExplainedBy_introducer? arenaId changes (.instancesOf name) d declared
  have unique := Environment.hasUniqueMembers_built arenaId changes (.instancesOf name) d declared
  obtain ⟨after, hooked⟩ := interfaceThrough_run a a.withEvidence d substitution includePrivate receiver s
  rw [← memberInterface_eq_through] at after hooked
  refine ⟨(a.memberInterface d substitution includePrivate receiver s).1, ?_, fun method => ?_⟩
  · rw [interface, interfaceFor_instance declared length]
    exact congrArg (Prod.mk _) after
  · have built := find?_memberInterface a d substitution includePrivate receiver s method
    rw [Definition.visible?_eq unique, explained, Option.filter_map, hooked] at built
    rw [hooked]
    refine marks_of_overloaded (fun definition introduced signature plain builds => ?_) built
    obtain ⟨_, rfl⟩ := Environment.mem_of_introducer? (Option.filter_eq_some_iff.1 introduced).1
    exact builds.isMarked acyclic rfl coherent rfl

namespace Nils

def heir : TypeName := .topLevel ⟨26⟩
def rebel : TypeName := .topLevel ⟨27⟩

/-- The definition `def nil?: () -> bool`, over an arena of `bool`. -/
def isNil (owner : TypeName) : MethodDefinition :=
  ⟨owner, .ofInstance, CoreNames.standard.isNil, false, [⟨[], ⟨.empty, 0⟩, none⟩]⟩

/-- Two classes that inherit from the class of all objects, one of them with a `nil?` of its own. -/
def changes : List Change :=
  [.inheritMethods CoreNames.standard.object rebel .ofInstance, .defineMethod (isNil rebel),
    .inheritMethods CoreNames.standard.object heir .ofInstance,
    .defineMethod (isNil CoreNames.standard.object), .declareClass rebel .ofClass [],
    .declareClass heir .ofClass [], .declareClass CoreNames.standard.object .ofClass [],
    .alloc (.base .boolean)]

end Nils

open Nils in
/-- An inherited `nil?` says that the receiver is `nil`; one that takes its place has the declared result. -/
theorem interface_introduced_nils :
    let a : Analysis := ⟨.built 0 changes, .standard, .structural⟩
    let offers (name : TypeName) (result : Ty) : Prop := ∃ i overload,
      (a.interface (.instanceOf name []) false (.start .initial 1)).1 = .ok i ∧
        i.find? CoreNames.standard.isNil = some [overload] ∧ overload.type.result = result
    a.env.arena.Acyclic ∧
      introducer? 0 changes (.instancesOf heir) CoreNames.standard.isNil =
        some (isNil CoreNames.standard.object) ∧
      introducer? 0 changes (.instancesOf rebel) CoreNames.standard.isNil = some (isNil rebel) ∧
      offers heir (.logic .receiverIsNil) ∧ offers rebel .boolean := by
  intro a offers
  have acyclic : a.env.arena.Acyclic := (Arena.acyclic_empty 0).push (by intro _ h; cases h)
  have inherited : introducer? 0 changes (.instancesOf heir) CoreNames.standard.isNil =
      some (isNil CoreNames.standard.object) := by rfl
  have own : introducer? 0 changes (.instancesOf rebel) CoreNames.standard.isNil =
      some (isNil rebel) := by rfl
  have single : ∀ (name owner : TypeName) (d : Definition), a.env.instanceDefinition name = .ok d →
      d.typeParams.length = ([] : List Ty).length →
      introducer? 0 changes (.instancesOf name) CoreNames.standard.isNil = some (isNil owner) →
      ∃ i plain overload, (a.interface (.instanceOf name []) false (.start .initial 1)).1 = .ok i ∧
        i.find? CoreNames.standard.isNil = some [overload] ∧
        IsMarked a.env.arena (.ofInstance name d.typeParams [] (.instanceOf name [])) (isNil owner)
          ⟨[], ⟨.empty, 0⟩, none⟩ plain overload := by
    intro name owner d declared length introduced
    obtain ⟨i, computed, methods⟩ := interface_introduced 0 changes .structural acyclic declared length
      false .initial 1 []
    obtain ⟨found, _, present, related⟩ := methods CoreNames.standard.isNil
    rw [introduced] at related
    obtain ⟨each⟩ := related
    obtain ⟨pair, rest, marked, none, rfl⟩ := List.forall₂_cons_left_iff.1 each
    obtain rfl := List.forall₂_nil_left_iff.1 none
    exact ⟨i, pair.1, pair.2, congrArg Prod.fst computed, present, marked⟩
  refine ⟨acyclic, inherited, own, ?_, ?_⟩
  · obtain ⟨i, plain, overload, computed, present, marked⟩ := single heir _ _ rfl rfl inherited
    exact ⟨i, overload, computed, present, marked.marked _ (by rfl)⟩
  · obtain ⟨i, plain, overload, computed, present, marked⟩ := single rebel _ _ rfl rfl own
    exact ⟨i, overload, computed, present, (marked.unmarked (by rfl)).2.trans (by rfl)⟩

end Analysis

end SignatureAlgebra
