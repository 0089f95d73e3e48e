/-
**An interface mentions nothing but its receiver.**

Signatures mention the type parameters of their class and of their method, and the placeholders. In the
overloads of an interface all of these are replaced: type parameters of the class by arguments of the
receiver, placeholders by types made of the receiver and of the type for `self`. What remains are the
variables of these two types and the type parameters of each overload itself, on every way on which
the overloads are refined, joined and merged.

* `Ty.HasNoPlaceholder` — no placeholder occurs in a type.
* `Definition.UsesOnly`, `Environment.IsScoped` — signatures use the variables in their scope only.
* `Vocabulary.mentioning` — the types without placeholders over some variables.
* `Analysis.interfaceFor_mentions_only` — the statement.
-/
import SignatureAlgebra.Proofs.Analysis.Vocabulary
import SignatureAlgebra.Proofs.Environment.Reached

namespace SignatureAlgebra

/-- No placeholder occurs in a type, at any depth. -/
def Ty.HasNoPlaceholder (t : Ty) : Prop := ∀ word, ⟨.placeholder word⟩ ∉ t.subterms

instance (t : Ty) : Decidable t.HasNoPlaceholder :=
  decidable_of_iff
    (∀ word ∈ [Placeholder.selfType, .instanceType, .classType], ⟨.placeholder word⟩ ∉ t.subterms)
    ⟨fun all word => all word (by cases word <;> simp), fun all word _ => all word⟩

/-- The signatures of a definition use only these variables, and their own type parameters. -/
def Definition.UsesOnly (arena : Arena) (names : List Name) (d : Definition) : Prop :=
  ∀ member ∈ d.members, ∀ declared ∈ member.overloads,
    ∀ t ∈ (arena.methodType declared.signature).types, ∀ x ∈ t.freeVars,
      x ∈ names ∨ x ∈ declared.signature.typeParams

instance (arena : Arena) (names : List Name) (d : Definition) : Decidable (d.UsesOnly arena names) :=
  inferInstanceAs (Decidable (∀ member ∈ d.members, ∀ declared ∈ member.overloads,
    ∀ t ∈ (arena.methodType declared.signature).types, ∀ x ∈ t.freeVars,
      x ∈ names ∨ x ∈ declared.signature.typeParams))

/-- **Every variable is in scope**: the methods of instances use the type parameters of their class, those
of a class itself only their own, and aliases stand for types without variables and placeholders. -/
structure Environment.IsScoped (env : Environment) : Prop where
  instances : ∀ name d, env.instanceDefinition name = .ok d → d.UsesOnly env.arena d.typeParams
  singletons : ∀ name d, env.singletonDefinition name = .ok d → d.UsesOnly env.arena []
  aliases : ∀ name body, env.aliasType name = .ok body → body.freeVars = [] ∧ body.HasNoPlaceholder

/-! ### Types over some variables -/

/-- What occurs in types without placeholders over some variables. -/
def Vocabulary.mentioning (names : List Name) : Vocabulary :=
  { unlimited with var := (· ∈ names), placeholder := fun _ => False }

namespace Ty

variable {t : Ty} {v : Vocabulary}

/-- Where all names may occur, it comes down to variables and placeholders. -/
theorem isWithin_of_names (names : v.singleton = Vocabulary.unlimited.singleton)
    (names' : v.applied = Vocabulary.unlimited.applied) (untidy : ¬ v.onlyTidy)
    (vars : ∀ x ∈ t.freeVars, v.var x)
    (words : ∀ word, ⟨.placeholder word⟩ ∈ t.subterms → v.placeholder word) : t.IsWithin v := by
  intro u occurs
  obtain ⟨s⟩ := u
  cases s with
  | var x => exact vars x (mem_freeVars.2 occurs)
  | placeholder word => exact words word occurs
  | singleton name =>
    show v.singleton name
    rw [names]
    exact trivial
  | applied head name args =>
    show v.applied head name args.length
    rw [names']
    exact trivial
  | compound c members => exact fun tidy => absurd tidy untidy
  | _ => exact trivial

theorem isWithin_mentioning {names : List Name} (vars : ∀ x ∈ t.freeVars, x ∈ names)
    (noPlaceholder : t.HasNoPlaceholder) : t.IsWithin (.mentioning names) :=
  isWithin_of_names rfl rfl id vars noPlaceholder

theorem IsWithin.mentions {names own : List Name}
    (within : t.IsWithin ((Vocabulary.mentioning names).withVars own)) :
    (∀ x ∈ t.freeVars, x ∈ names ∨ x ∈ own) ∧ t.HasNoPlaceholder :=
  ⟨fun x occurs => within (.var x) (mem_freeVars.1 occurs), fun _ occurs => within _ occurs⟩

end Ty

/-- Signatures that use variables in scope are within the vocabulary of a receiver, apart from what is
replaced. -/
theorem Definition.UsesOnly.isWithin {arena : Arena} {typeParams : List Name} {d : Definition}
    (uses : d.UsesOnly arena typeParams) (names : List Name) :
    d.IsWithin arena ((Vocabulary.mentioning names).withVars typeParams).withPlaceholders := by
  intro member isMember declared isDeclared t isType
  refine Ty.isWithin_of_names rfl rfl id (fun x occurs => ?_) fun _ _ => trivial
  rcases uses member isMember declared isDeclared t isType x occurs with ofClass | own
  · exact Or.inl (Or.inr ofClass)
  · exact Or.inr own

namespace Analysis

variable {a : Analysis}

/-- What is declared in scope fits the vocabulary of any receiver. -/
theorem fits_mentioning (inScope : a.env.IsScoped) (keeps : a.joinRule.KeepsVocabulary)
    (names : List Name) : (Vocabulary.mentioning names).Fits a fun _ => True where
  aliases name _ _ := Outcome.of_ok fun body declared => by
    obtain ⟨noVariable, noPlaceholder⟩ := inScope.aliases name body declared
    exact Ty.isWithin_mentioning (by simp [noVariable]) noPlaceholder
  instances name _ _ := Outcome.of_ok fun d declared =>
    ⟨(inScope.instances name d declared).isWithin names, trivial, fun _ => trivial⟩
  singletons name _ := Outcome.of_ok fun d declared => by
    refine ⟨fun member isMember o isOverload t isType => ?_, trivial⟩
    refine Ty.isWithin_of_names rfl rfl id (fun x occurs => ?_) fun _ _ => trivial
    rcases inScope.singletons name d declared member isMember o isOverload t isType x occurs with
      impossible | own
    · cases impossible
    · exact Or.inr own
  interfaces _ _ _ impossible _ := impossible.elim
  core _ _ := trivial
  joins := keeps _
  invalidReceiver _ := trivial
  recursiveAlias _ := trivial
  selfWithoutReceiver := trivial

/-- **An interface mentions nothing but its receiver.** Let every variable be in scope in what is declared.
If a type and the type for `self` have no placeholders, and no interface type stands where the type is
looked up, then at any time every variable in an overload is free in one of the two types or a type
parameter of the overload, and no placeholder occurs in it. -/
theorem interfaceFor_mentions_only (acyclic : a.env.arena.Acyclic) (inScope : a.env.IsScoped)
    (keeps : a.joinRule.KeepsVocabulary) (names : Interner) (nextFresh : Nat) (events : List Event)
    (includePrivate : Bool) {t selfType : Ty} (noPlaceholder : t.HasNoPlaceholder)
    (noPlaceholder' : selfType.HasNoPlaceholder)
    (noInterface : ∀ name args, ¬ a.env.Reaches selfType t (.interfaceOf name args)) {i : Interface}
    (computed : (a.interfaceFor t includePrivate selfType
      (a.after (.start names nextFresh) events)).1 = .ok i)
    {name : Name} {overloads : List Overload} (found : i.find? name = some overloads) :
    ∀ o ∈ overloads, ∀ u ∈ o.type.types,
      (∀ x ∈ u.freeVars, x ∈ t.freeVars ∨ x ∈ selfType.freeVars ∨ x ∈ o.type.typeParams) ∧
      u.HasNoPlaceholder := by
  intro o isOverload u isType
  have fits := fits_mentioning inScope keeps (t.freeVars ++ selfType.freeVars)
  have within : t.IsWithin (.mentioning (t.freeVars ++ selfType.freeVars)) :=
    Ty.isWithin_mentioning (fun x occurs => List.mem_append_left _ occurs) noPlaceholder
  have within' : selfType.IsWithin (.mentioning (t.freeVars ++ selfType.freeVars)) :=
    Ty.isWithin_mentioning (fun x occurs => List.mem_append_right _ occurs) noPlaceholder'
  have ends : Ends (Session.OnWay a []) (a.interfaceFor t includePrivate selfType)
      (Interface.IsWithin (.mentioning (t.freeVars ++ selfType.freeVars))) fun _ => True :=
    within_interfaceFor acyclic fits within'
      ⟨within, fun name args reached => absurd reached (noInterface name args)⟩
  have outcome := outcome_after acyclic names nextFresh events ends
  rw [computed] at outcome
  obtain ⟨vars, noPlaceholder⟩ := (outcome name overloads found o isOverload u isType).mentions
  refine ⟨fun x occurs => ?_, noPlaceholder⟩
  rcases vars x occurs with known | own
  · exact (List.mem_append.1 known).imp_right Or.inl
  · exact Or.inr (Or.inr own)

open Boxes in
/-- In the overload of a box of `T` there are the receiver's own `T` and the type parameter of the
overload, and the class parameter `E` is gone. -/
theorem interfaceFor_mentions_only_box :
    let receiver := Ty.instanceOf box [.var varT]
    let analysis := declaring varE varT
    let overload := mapped ⟨30⟩ (.var varT) (.var ⟨30⟩)
    analysis.env.arena.Acyclic ∧ analysis.env.IsScoped ∧ receiver.HasNoPlaceholder ∧
      (∀ name args, ¬ analysis.env.Reaches receiver receiver (.interfaceOf name args)) ∧
      (analysis.interfaceFor receiver false receiver (.start names 1)).1 =
        .ok (offering receiver overload) ∧
      ∀ u ∈ overload.type.types,
        (∀ x ∈ u.freeVars, x ∈ receiver.freeVars ∨ x ∈ receiver.freeVars ∨ x ∈ overload.type.typeParams) ∧
        u.HasNoPlaceholder := by
  intro receiver analysis overload
  have used : ∀ entry ∈ analysis.env.classes,
      entry.2.instances.UsesOnly analysis.env.arena entry.2.instances.typeParams ∧
        entry.2.singleton.UsesOnly analysis.env.arena [] := by decide
  have inScope : analysis.env.IsScoped := by
    refine ⟨fun name d declared => ?_, fun name d declared => ?_, fun name body declared => ?_⟩
    · obtain ⟨entry, isEntry, rfl⟩ := Environment.mem_of_instanceDefinition declared
      exact (used _ isEntry).1
    · obtain ⟨entry, isEntry, rfl⟩ := Environment.mem_of_singletonDefinition declared
      exact (used _ isEntry).2
    · cases declared
  have noPlaceholder : receiver.HasNoPlaceholder := by decide
  have noInterface : ∀ name args,
      ¬ analysis.env.Reaches receiver receiver (.interfaceOf name args) := by
    intro name args reached
    have isolated : ∀ u, ¬ analysis.env.Step receiver (.instanceOf box [.var varT]) u := nofun
    have other : receiver ≠ .interfaceOf name args := by simp [receiver]
    rcases Relation.ReflTransGen.cases_head reached with same | ⟨u, step, _⟩
    · exact other same
    · exact isolated u step
  have computed : (analysis.interfaceFor receiver false receiver (.start names 1)).1 =
      .ok (offering receiver overload) := by rfl
  have offered : (offering receiver overload).find? mapName = some [overload] := by rfl
  have mentions := interfaceFor_mentions_only (acyclic varE varT) inScope
    JoinRule.keepsVocabulary_structural names 1 [] false noPlaceholder noPlaceholder noInterface
    computed offered
  exact ⟨acyclic varE varT, inScope, noPlaceholder, noInterface, computed,
    mentions overload List.mem_cons_self⟩

end Analysis

end SignatureAlgebra
