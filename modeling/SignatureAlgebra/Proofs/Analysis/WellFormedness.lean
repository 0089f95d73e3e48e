/-
**Well-formed types have interfaces of well-formed types.**

A type is well-formed if every name in it is declared as what it is used for, with as many arguments as it
has type parameters. Interfaces bring in types of their own: the classes behind literals and structures,
and what stands for the placeholders. These have the right number of arguments, since a class has the
type parameters of its instances. So nothing unknown is ever looked up, and an interface is refused only
for what a well-formed type can be: no receiver, `self` without a receiver, or a recursive alias.

* `Environment.vocabulary` — the names that are declared; a type within it is well-formed.
* `Definition.IsWellFormed`, `Environment.IsWellFormed` — signatures, aliases and base classes.
* `Error.ConcernsReceiver` — the refusals that remain.
* `Analysis.interfaceFor_wellFormed` — the statement.
-/
import SignatureAlgebra.Proofs.Analysis.Vocabulary
import SignatureAlgebra.Proofs.Environment.Reached

namespace SignatureAlgebra

namespace Environment

/-- **The names that are declared**, applied names with as many arguments as they have type parameters,
aliases with none. A type is well-formed if it is within this vocabulary. -/
def vocabulary (env : Environment) : Vocabulary where
  var _ := True
  placeholder _ := True
  singleton name := (env.class? name).isSome
  applied head name n :=
    match head with
    | .ofClass => (env.class? name).map (fun entry => entry.instances.typeParams.length) = some n
    | .ofInterface => (env.interfaces.lookup name).map (fun d => d.typeParams.length) = some n
    | .ofAlias => (env.aliases.lookup name).isSome ∧ n = 0
  onlyTidy := False

instance (env : Environment) : ∀ t : Ty, Decidable (env.vocabulary.Allows t)
  | ⟨.singleton name⟩ => inferInstanceAs (Decidable ((env.class? name).isSome = true))
  | ⟨.applied .ofClass name args⟩ => inferInstanceAs (Decidable
    ((env.class? name).map (fun entry => entry.instances.typeParams.length) = some args.length))
  | ⟨.applied .ofInterface name args⟩ => inferInstanceAs (Decidable
    ((env.interfaces.lookup name).map (fun d => d.typeParams.length) = some args.length))
  | ⟨.applied .ofAlias name args⟩ => inferInstanceAs (Decidable
    ((env.aliases.lookup name).isSome = true ∧ args.length = 0))
  | ⟨.compound _ _⟩ => .isTrue nofun
  | ⟨.base _⟩ | ⟨.placeholder _⟩ | ⟨.var _⟩ | ⟨.literal _⟩ | ⟨.logic _⟩ | ⟨.tuple _⟩ | ⟨.record _⟩
  | ⟨.proc _ _⟩ => .isTrue trivial

instance (env : Environment) (t : Ty) : Decidable (t.IsWithin env.vocabulary) :=
  inferInstanceAs (Decidable (∀ u ∈ t.subterms, env.vocabulary.Allows u))

end Environment

/-- Every type of every signature is well-formed. -/
def Definition.IsWellFormed (env : Environment) (d : Definition) : Prop :=
  ∀ member ∈ d.members, ∀ declared ∈ member.overloads,
    ∀ t ∈ (env.arena.methodType declared.signature).types, t.IsWithin env.vocabulary

instance (env : Environment) (d : Definition) : Decidable (d.IsWellFormed env) :=
  inferInstanceAs (Decidable (∀ member ∈ d.members, ∀ declared ∈ member.overloads,
    ∀ t ∈ (env.arena.methodType declared.signature).types, t.IsWithin env.vocabulary))

/-- **All signatures and aliases are well-formed**, and the base classes are declared, each with its
number of type parameters. -/
structure Environment.IsWellFormed (env : Environment) (core : CoreNames) : Prop where
  instances : ∀ name d, env.instanceDefinition name = .ok d → d.IsWellFormed env
  singletons : ∀ name d, env.singletonDefinition name = .ok d → d.IsWellFormed env
  interfaces : ∀ name d, env.interfaceDefinition name = .ok d → d.IsWellFormed env
  aliases : ∀ name body, env.aliasType name = .ok body → body.IsWithin env.vocabulary
  core : ∀ entry ∈ core.arities, env.vocabulary.applied .ofClass entry.1 entry.2

/-- The errors that are about a receiver, and not about a name or a number of arguments. -/
def Error.ConcernsReceiver : Error → Prop
  | .invalidReceiver _ | .selfWithoutReceiver | .recursiveAlias _ => True
  | _ => False

theorem Definition.IsWellFormed.isWithin {env : Environment} {d : Definition}
    (wellFormed : d.IsWellFormed env) (typeParams : List Name) :
    d.IsWithin env.arena (env.vocabulary.withVars typeParams).withPlaceholders := by
  intro member isMember declared isDeclared t isType
  have within : t.IsWithin env.vocabulary := wellFormed member isMember declared isDeclared t isType
  exact (within.withVars typeParams).withPlaceholders.withVars _

namespace Analysis

variable {a : Analysis}

/-- **What is declared in a reached environment fits its own names**, and nothing is refused that is
not about a receiver. -/
theorem fits_vocabulary (shares : a.env.SharesParams) (wellFormed : a.env.IsWellFormed a.core)
    (keeps : a.joinRule.KeepsVocabulary) : a.env.vocabulary.Fits a Error.ConcernsReceiver where
  aliases name _ known := by
    have isWithin := wellFormed.aliases name
    unfold Environment.aliasType Environment.aliasBody at isWithin ⊢
    obtain ⟨id, found⟩ := Option.isSome_iff_exists.1 known.1
    rw [found] at isWithin ⊢
    exact isWithin _ rfl
  instances name n known := by
    have isWellFormed := wellFormed.instances name
    unfold Environment.instanceDefinition at isWellFormed ⊢
    obtain ⟨entry, found, length⟩ := Option.map_eq_some_iff.1 known
    rw [found] at isWellFormed ⊢
    refine ⟨(isWellFormed _ rfl).isWithin _, ?_, fun other => absurd length other⟩
    exact Option.isSome_iff_exists.2 ⟨entry, found⟩
  singletons name known := by
    have isWellFormed := wellFormed.singletons name
    unfold Environment.singletonDefinition at isWellFormed ⊢
    obtain ⟨entry, found⟩ := Option.isSome_iff_exists.1 known
    rw [found] at isWellFormed ⊢
    refine ⟨fun member isMember o isOverload t isType => ?_, ?_⟩
    · exact (isWellFormed _ rfl member isMember o isOverload t isType).withPlaceholders.withVars _
    · exact Option.map_eq_some_iff.2 ⟨entry, found, by rw [shares name entry found]⟩
  interfaces name n known _ _ := by
    have isWellFormed := wellFormed.interfaces name
    unfold Environment.interfaceDefinition at isWellFormed ⊢
    obtain ⟨d, found, length⟩ := Option.map_eq_some_iff.1 known
    rw [found] at isWellFormed ⊢
    exact ⟨(isWellFormed _ rfl).isWithin _, fun other => absurd length other⟩
  core := wellFormed.core
  joins := keeps _
  invalidReceiver _ := trivial
  recursiveAlias _ := trivial
  selfWithoutReceiver := trivial

/-- **Well-formed types have interfaces of well-formed types.** In a reached environment whose signatures
and aliases are well-formed and which declares the base classes, the interface of a well-formed type for a
well-formed receiver is refused only for reasons that concern the receiver, at any time, and every type in
every overload of an interface that is given is well-formed. -/
theorem interfaceFor_wellFormed (reached : a.env.IsReached) (wellFormed : a.env.IsWellFormed a.core)
    (keeps : a.joinRule.KeepsVocabulary) (names : Interner) (nextFresh : Nat) (events : List Event)
    (includePrivate : Bool) {t selfType : Ty} (within : t.IsWithin a.env.vocabulary)
    (within' : selfType.IsWithin a.env.vocabulary) :
    let answer := (a.interfaceFor t includePrivate selfType (a.after (.start names nextFresh) events)).1
    (∀ e, answer = .error e → e.ConcernsReceiver) ∧
    ∀ i, answer = .ok i → ∀ name overloads, i.find? name = some overloads →
      ∀ o ∈ overloads, ∀ u ∈ o.type.types, u.IsWithin a.env.vocabulary := by
  intro answer
  have fits := fits_vocabulary reached.sharesParams wellFormed keeps
  have ends : Ends (Session.OnWay a []) (a.interfaceFor t includePrivate selfType)
      (Interface.IsWithin a.env.vocabulary) Error.ConcernsReceiver :=
    within_interfaceFor reached.acyclic fits within' ⟨within, fun _ _ _ => ⟨trivial, trivial⟩⟩
  have outcome : Outcome _ _ answer := outcome_after reached.acyclic names nextFresh events ends
  refine ⟨fun e refused => ?_, fun i computed name overloads found o isOverload u isType => ?_⟩
  · rw [refused] at outcome
    exact outcome
  · rw [computed] at outcome
    refine (outcome name overloads found o isOverload u isType).mono fun x allowed => ?_
    obtain ⟨s⟩ := x
    cases s with
    | var _ => exact trivial
    | _ => exact allowed

namespace Boxes

/-- The nodes of `[T] (E) -> T`. -/
def noded : Environment :=
  ⟨((Arena.empty 0).push (.var varE)).push (.var varT), [], [], []⟩

/-- The base classes. -/
def based : Environment :=
  CoreNames.standard.arities.foldl (fun (env : Environment) entry =>
    env.declareClass entry.1 .ofClass ([varE, varT].take entry.2)) noded

/-- The base classes and boxes, which have a method `map`. -/
def boxes : Environment :=
  (based.declareClass box .ofClass [varE]).setMembersOf box .ofInstance (boxDefinition varE varT)

theorem isReached_boxes : boxes.IsReached := by
  have nodes : noded.IsReached :=
    ((Environment.IsReached.empty 0).step (.alloc (.var varE) nofun)).step (.alloc (.var varT) nofun)
  have core : based.IsReached :=
    List.foldlRecOn CoreNames.standard.arities _ nodes
      fun env reached entry _ => reached.step (.declareClass _ _ _)
  have defined : (based.declareClass box .ofClass [varE]).defineMethod box .ofInstance mapName false
      [(mapping varT).signature] = .ok boxes := by rfl
  exact (core.step (.declareClass box .ofClass [varE])).step (.defineMethod defined)

theorem isWellFormed_boxes : boxes.IsWellFormed .standard := by
  have signatures : ∀ entry ∈ boxes.classes,
      entry.2.instances.IsWellFormed boxes ∧ entry.2.singleton.IsWellFormed boxes := by
    decide +kernel
  have core : ∀ entry ∈ CoreNames.standard.arities,
      (boxes.class? entry.1).map (fun entry => entry.instances.typeParams.length) = some entry.2 := by
    decide +kernel
  refine ⟨fun name d declared => ?_, fun name d declared => ?_, fun name d declared => ?_,
    fun name body declared => ?_, core⟩
  · obtain ⟨entry, isEntry, rfl⟩ := Environment.mem_of_instanceDefinition declared
    exact (signatures _ isEntry).1
  · obtain ⟨entry, isEntry, rfl⟩ := Environment.mem_of_singletonDefinition declared
    exact (signatures _ isEntry).2
  · exact absurd declared nofun
  · exact absurd declared nofun

end Boxes

open Boxes in
/-- A pair of a box of `nil` and `self` has an interface, in which `first` gives that box; `top` is refused,
being no receiver. -/
theorem interfaceFor_wellFormed_boxes :
    let t := Ty.tuple [.instanceOf box [.nil], .selfType]
    let analysis : Analysis := ⟨boxes, .standard, .structural⟩
    let answer := fun t selfType => (analysis.interfaceFor t false selfType (.start names 1)).1
    boxes.IsReached ∧ boxes.IsWellFormed .standard ∧ t.IsWithin boxes.vocabulary ∧
      (∃ i o, answer t t = .ok i ∧ i.find? CoreNames.standard.first = some [o] ∧
        o.type.result = .instanceOf box [.nil] ∧ ∀ u ∈ o.type.types, u.IsWithin boxes.vocabulary) ∧
      answer .top t = .error (.invalidReceiver .top) ∧
      (Error.invalidReceiver .top).ConcernsReceiver := by
  intro t analysis answer
  have within : t.IsWithin boxes.vocabulary := by decide
  have top : Ty.top.IsWithin boxes.vocabulary := by decide
  have refused : answer .top t = .error (.invalidReceiver .top) := by rfl
  obtain ⟨i, computed, offered⟩ : ∃ i, answer t t = .ok i ∧ i.find? CoreNames.standard.first =
      some [.ofTypes .empty (.instanceOf box [.nil])] := ⟨_, rfl, rfl⟩
  obtain ⟨_, wellFormed⟩ := interfaceFor_wellFormed (a := analysis) isReached_boxes isWellFormed_boxes
    JoinRule.keepsVocabulary_structural names 1 [] false within within
  obtain ⟨concerns, _⟩ := interfaceFor_wellFormed (a := analysis) isReached_boxes isWellFormed_boxes
    JoinRule.keepsVocabulary_structural names 1 [] false top within
  exact ⟨isReached_boxes, isWellFormed_boxes, within, ⟨i, _, computed, offered, rfl,
    wellFormed i computed _ _ offered _ List.mem_cons_self⟩, refused, concerns _ refused⟩

end Analysis

end SignatureAlgebra
