/-
**The names of the variables of a receiver.**

A receiver whose variables get other names, one name each, has an interface exactly if the receiver itself
has one. A method has as many overloads in either of them, if nothing that is joined for it involves the
names.

Where overloads are joined, names do matter. A type parameter of a method that clashes with the receiver
gets a fresh name, another one for each member of a union, and overloads with different type parameters have
no join. So a box or a bag of `T` has no method `map: [T] (E) -> T`, and a box or a bag of `U` has one.

* `Substitution.ofNames` — variables in place of variables.
* `Analysis.joinsApart_of_forall` — methods for which nothing involves the names, by evaluation.
* `Analysis.interface_renaming` — the statement.
* `Analysis.interface_renaming_matters` — what happens without its conditions.
-/
import Mathlib.Logic.Equiv.Basic
import SignatureAlgebra.Proofs.Analysis.Hygiene
import SignatureAlgebra.Proofs.Analysis.RespelledReceivers
import SignatureAlgebra.Proofs.Environment.Reached
import SignatureAlgebra.Proofs.Substitution.Composition

namespace SignatureAlgebra

/-! ### Other names as a substitution -/

namespace NameMap

/-- Names that are bound to something made of themselves. -/
theorem find?_ofLists_self {α : Type} (f : Name → α) {names : List Name} {name : Name}
    (isBound : name ∈ names) : (ofLists names (names.map f)).find? name = some (f name) := by
  obtain ⟨value, found⟩ := find?_ofLists_of_mem (List.length_map f).symm isBound
  have pairs : names.zip (names.map f) = names.map fun x => (x, f x) := by
    rw [← List.zip_map', List.map_id']
  have isPair := mem_zip_of_find?_ofLists found
  rw [pairs] at isPair
  obtain ⟨_, _, same⟩ := List.mem_map.1 isPair
  obtain ⟨rfl, rfl⟩ := Prod.mk.inj same
  exact found

end NameMap

/-- **Puts variables in place of variables.** -/
def Substitution.ofNames (f : Name → Name) (vars : List Name) : Substitution :=
  ⟨.ofLists vars (vars.map fun x => .var (f x)), fun _ => none⟩

theorem Substitution.apply_ofNames (f : Name → Name) {t : Ty} (normal : t.IsNormal) :
    (ofNames f t.freeVars).apply t = t.respell f := by
  rw [apply_of_normal _ normal]
  refine Ty.replace_congr (fun x occurs => ?_) (fun _ _ => rfl) rfl rfl
  show ((NameMap.ofLists t.freeVars (t.freeVars.map fun x => Ty.var (f x))).find? x).getD _ = _
  rw [NameMap.find?_ofLists_self (fun x => Ty.var (f x)) (Ty.mem_freeVars.2 occurs)]
  rfl

/-- Other names for the variables of a type, and for no others. -/
theorem exists_respelling {t : Ty} {f : Name → Name} (injective : Set.InjOn f {x | x ∈ t.freeVars}) :
    ∃ g, Respelling t g ∧ t.respell g = t.respell f ∧ t.involved g = t.involved f := by
  have same : ∀ x ∈ t.freeVars, (if x ∈ t.freeVars then f x else x) = f x := fun x occurs =>
    if_pos occurs
  refine ⟨fun x => if x ∈ t.freeVars then f x else x, ⟨fun x other => if_neg other, ?_⟩,
    Ty.respell_congr same, congrArg (t.freeVars ++ ·) (List.map_congr_left same)⟩
  exact injective.congr fun x occurs => (same x occurs).symm

namespace Analysis

variable {a : Analysis}

/-! ### Names that nothing involves -/

/-- Names that are involved in nothing that is declared, apart from the type parameters of its owner. -/
theorem joinsApart_of_forall {root t : Ty} {involved : List Name} {name : Name}
    (classes : ∀ entry ∈ a.env.classes,
      entry.2.instances.KeepsApart a.env.arena entry.2.instances.typeParams name involved ∧
        entry.2.singleton.KeepsApart a.env.arena [] name involved)
    (interfaces : ∀ entry ∈ a.env.interfaces,
      entry.2.KeepsApart a.env.arena entry.2.typeParams name involved)
    (aliases : ∀ entry ∈ a.env.aliases, ∀ x ∈ (a.env.arena.toTy entry.2).freeVars, x ∉ involved) :
    a.JoinsApart root involved t name := by
  refine fun u _ _ => ⟨fun v d replaced _ declares => ?_, fun label args body _ declared => ?_⟩
  · cases declares with
    | ofClass _ declared =>
      obtain ⟨entry, isEntry, rfl⟩ := Environment.mem_of_instanceDefinition declared
      exact (classes _ isEntry).1
    | ofInterface declared => exact interfaces _ (Environment.mem_of_interfaceDefinition declared)
    | ofSingleton declared =>
      obtain ⟨entry, isEntry, rfl⟩ := Environment.mem_of_singletonDefinition declared
      exact (classes _ isEntry).2
  · unfold Environment.aliasType at declared
    cases found : a.env.aliasBody label with
    | error e => rw [found] at declared; cases declared
    | ok id =>
      rw [found] at declared
      exact Except.ok.inj declared ▸ aliases _ (Environment.mem_of_aliasBody found)

/-! ### Boxes, bags and jars -/

namespace Boxes

/-- The well-known names and those of boxes, bags and jars. -/
def allNames : Interner := ⟨names.texts ++ ["Bag", "Jar", "each", "held", "U"]⟩

def bag : TypeName := .topLevel ⟨30⟩
def jar : TypeName := .topLevel ⟨31⟩
def eachName : Name := ⟨32⟩
def held : TypeName := .topLevel ⟨33⟩
def varU : Name := ⟨34⟩

/-- The declared overload `each: () { (element) -> nil } -> nil`. -/
def visiting (owner : TypeName) (element : NodeId) : DeclaredOverload :=
  ⟨⟨[], ⟨.empty, 2⟩, some ⟨⟨{ DeclaredParams.empty with required := [.anonymous element] }, 2⟩, true⟩⟩,
    ⟨owner, .ofInstance⟩⟩

/-- The class `owner[E]` with the methods `map: [T] (E) -> T` and `each`. -/
def container (owner : TypeName) (element : NodeId) : TypeName × ClassEntry :=
  (owner, ⟨.ofClass, ⟨[varE], [⟨mapName, false, [⟨(mapping varT).signature, ⟨owner, .ofInstance⟩⟩]⟩,
    ⟨eachName, false, [visiting owner element]⟩]⟩, ⟨[varE], []⟩⟩)

/-- Boxes and bags, of which `each` visits the elements, jars, of which it visits a `T` out of nowhere, and
the alias `held` for a bag of this `T`. -/
def containers : Analysis where
  env := { Environment.empty 0 with
    arena := ((declaring varE varT).env.arena.push (.base .nil)).push (.classInstance bag [1])
    classes := [container box 0, container bag 0, container jar 1]
    aliases := [(held, 3)] }
  core := .standard
  joinRule := .structural

/-- A box of something, or something else. -/
def boxOr (arg other : Ty) : Ty := .union [.instanceOf box [arg], other]

/-- How many overloads a method has, if the type has an interface and the interface has the method. -/
def overloadsOf (t : Ty) (name : Name) : Except Error (Option Nat) :=
  (containers.interface t false (.start allNames 1)).1.map fun i => (i.find? name).map List.length

theorem overloadsOf_eq_ok {t : Ty} {name : Name} {n : Option Nat} : overloadsOf t name = .ok n ↔
    ∃ i, (containers.interface t false (.start allNames 1)).1 = .ok i ∧
      (i.find? name).map List.length = n := map_eq_ok_iff

theorem acyclic_containers : containers.env.arena.Acyclic :=
  ((acyclic varE varT).push (by decide)).push (by decide)

end Boxes

/-! ### Interfaces under other names -/

/-- **Other names for the variables of a receiver.** In any environment whose arena has no circles, let a type
in normal form get other names for its variables, one name each. Then at any time one of the two types has an
interface exactly if the other has. A method is in both or in neither, with as many overloads, if nothing that
is joined for it involves any of the names. -/
theorem interface_renaming (acyclic : a.env.arena.Acyclic) (ignores : a.joinRule.IgnoresSpelling)
    {t : Ty} (normal : t.IsNormal) {f : Name → Name} (injective : Set.InjOn f {x | x ∈ t.freeVars})
    (names names' : Interner) (nextFresh nextFresh' : Nat) (events events' : List Event)
    (includePrivate : Bool) :
    let answer := (a.interface t includePrivate (a.after (.start names nextFresh) events)).1
    let answer' := (a.interface ((Substitution.ofNames f t.freeVars).apply t) includePrivate
      (a.after (.start names' nextFresh') events')).1
    ((∃ i, answer = .ok i) ↔ ∃ i', answer' = .ok i') ∧
    ∀ i i', answer = .ok i → answer' = .ok i' → ∀ name, a.JoinsApart t (t.involved f) t name →
      (i.find? name).map List.length = (i'.find? name).map List.length := by
  intro answer answer'
  obtain ⟨g, respelling, sameType, sameNames⟩ := exists_respelling injective
  have within : t.IsWithin (.over {x | x ∈ t.freeVars}) :=
    Ty.isWithin_over_iff.2 ⟨normal, fun _ occurs => occurs⟩
  have alike : a.FollowsAlike t g (a.interfaceWithin includePrivate (a.env.aliasBound + 2))
      (a.interfaceWithin includePrivate (a.env.aliasBound + 2)) :=
    agrees_interfaceWithin acyclic ignores respelling _
  have parallel := alike [] t (t.respell g) t (t.respell g) nofun ⟨rfl, within⟩ (fun _ => rfl)
    (fun _ _ reached => reached) (.ofRoot within)
  have idle := idle_after acyclic (idle_start a names nextFresh) events
  have idle' := idle_after acyclic (idle_start a names' nextFresh') events'
  have outcomes : Outcomes (a.Agrees t g t) (fun _ _ => True) answer answer' := by
    show Outcomes _ _ _ (a.interface ((Substitution.ofNames f t.freeVars).apply t) _ _).1
    rw [Substitution.apply_ofNames f normal, ← sameType]
    exact (parallel _ _ ⟨idle.coherent, idle.receivers⟩ ⟨idle'.coherent, idle'.receivers⟩).1
  refine ⟨outcomes.isOk_iff, fun i i' computed computed' name apart => ?_⟩
  rw [computed, computed'] at outcomes
  rw [← sameNames] at apart
  exact (outcomes name apart).length_eq

open Boxes in
/-- The method `map` of a box or a bag of `U` is still there if this variable is called `E`. -/
theorem interface_renaming_boxOrBag :
    let receiver := boxOr (.var varU) (.instanceOf bag [.var varU])
    let called := (Substitution.ofNames (fun _ => varE) receiver.freeVars).apply receiver
    containers.env.arena.Acyclic ∧ containers.joinRule.IgnoresSpelling ∧ receiver.IsNormal ∧
      Set.InjOn (fun _ => varE) {x | x ∈ receiver.freeVars} ∧
      containers.JoinsApart receiver (receiver.involved fun _ => varE) receiver mapName ∧
      called = boxOr (.var varE) (.instanceOf bag [.var varE]) ∧
      overloadsOf receiver mapName = .ok (some 1) ∧ overloadsOf called mapName = .ok (some 1) := by
  intro receiver called
  have normal : receiver.IsNormal := by decide
  have injective : Set.InjOn (fun _ => varE) {x | x ∈ receiver.freeVars} := by
    have single : ∀ x ∈ receiver.freeVars, x = varU := by decide
    intro x isVar y isVar' _
    rw [single x isVar, single y isVar']
  have ignores : containers.joinRule.IgnoresSpelling := JoinRule.ignoresSpelling_structural
  have apart : containers.JoinsApart receiver (receiver.involved fun _ => varE) receiver mapName :=
    joinsApart_of_forall (by decide) nofun (by decide)
  have same : called = boxOr (.var varE) (.instanceOf bag [.var varE]) := by decide +kernel
  have counted : overloadsOf receiver mapName = .ok (some 1) := by decide +kernel
  obtain ⟨i, computed, one⟩ := overloadsOf_eq_ok.1 counted
  obtain ⟨succeeds, counts⟩ := interface_renaming acyclic_containers ignores normal injective allNames
    allNames 1 1 [] [] false
  obtain ⟨i', computed'⟩ := succeeds.1 ⟨i, computed⟩
  have one' := (counts i i' computed computed' mapName apart).symm.trans one
  exact ⟨acyclic_containers, ignores, normal, injective, apart, same, counted,
    overloadsOf_eq_ok.2 ⟨i', computed', one'⟩⟩

open Boxes in
/-- **Names matter where overloads are joined.** Let `T` be called `U`. A box or a bag of `T` has no method
`map`, as its type parameter gets two fresh names; one of `U` has it. A box or a jar of `T` has the method
`each`, whose block takes a `T` on either side, and so has a box of `T` or what `held` stands for; those of
`U` do not. A type that is not in normal form gets it, and may be `bottom` then. -/
theorem interface_renaming_matters :
    let called := fun t : Ty => (Substitution.ofNames (Equiv.swap varT varU) t.freeVars).apply t
    let boxOrBag := boxOr (.var varT) (.instanceOf bag [.var varT])
    let boxOrJar := boxOr (.var varT) (.instanceOf jar [.var varT])
    let boxOrHeld := boxOr (.var varT) (.aliasOf held [])
    let boxAndNothing : Ty := ⟨.compound .intersection [.instanceOf box [.var varT], ⟨.compound .union []⟩]⟩
    Function.Injective (Equiv.swap varT varU) ∧
      (overloadsOf boxOrBag mapName = .ok none ∧
        overloadsOf (called boxOrBag) mapName = .ok (some 1)) ∧
      (overloadsOf boxOrJar eachName = .ok (some 1) ∧
        overloadsOf (called boxOrJar) eachName = .ok none) ∧
      (overloadsOf boxOrHeld eachName = .ok (some 1) ∧
        overloadsOf (called boxOrHeld) eachName = .ok none) ∧
      overloadsOf boxAndNothing mapName = .ok (some 1) ∧
        overloadsOf (called boxAndNothing) mapName = .error (.invalidReceiver .bottom) := by
  refine ⟨Equiv.injective _, ?_⟩
  decide +kernel

end Analysis

end SignatureAlgebra
