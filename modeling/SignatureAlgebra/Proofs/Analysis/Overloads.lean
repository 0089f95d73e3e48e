/-
**Where the overloads of an interface come from.**

The interface of an instance of a class, or of an interface type, has the visible members of what is
declared, and for each member one overload for each declared overload, in order. All of them are
instantiated one after the other with one substitution, which binds the type parameters of the class
to the arguments of the type.

* `Session.Leads` — what any transparent action does to a session.
* `Analysis.Builds` — how one overload is made of a declared one.
* `Environment.IsNamed` — the definition behind a type, and the arguments of the type.
* `Analysis.interfaceFor_named` — the interface of such a type, method by method.
-/
import Mathlib.Data.Option.Basic
import SignatureAlgebra.Proofs.Analysis.Answers

namespace SignatureAlgebra

/-! ### Sessions on the way -/

/-- What transparent actions do to a session. -/
structure Session.Leads (a : Analysis) (s later : Session) : Prop where
  grows : s.Grows later
  coherent : a.env.arena.Acyclic → s.Coherent a → later.Coherent a

namespace Analysis

variable {a : Analysis}

theorem leads_refl (a : Analysis) (s : Session) : s.Leads a s := ⟨Session.Grows.refl s, fun _ h => h⟩

theorem leads_trans {s t u : Session} (first : s.Leads a t) (second : t.Leads a u) : s.Leads a u where
  grows := first.grows.trans second.grows
  coherent acyclic h := second.coherent acyclic (first.coherent acyclic h)

theorem Transparent.leads {α : Type} {action : StateM Session α} (transparent : a.Transparent action)
    (s : Session) : s.Leads a (action s).2 where
  grows := transparent.grows s
  coherent acyclic coherent :=
    (transparent.same acyclic s s ⟨rfl, rfl, rfl, coherent, coherent⟩).2.left

/-- Each result of a list of actions is that of its own action, on a session on the way. -/
theorem Transparent.forall₂_mapM {α β : Type} {f : α → StateM Session β}
    (each : ∀ v, a.Transparent (f v)) (values : List α) (s : Session) :
    List.Forall₂ (fun v result => ∃ here, s.Leads a here ∧ (f v here).1 = result ∧
      (f v here).2.Leads a (values.mapM f s).2) values (values.mapM f s).1 := by
  induction values generalizing s with
  | nil => exact List.Forall₂.nil
  | cons first rest ih =>
    have run : (first :: rest).mapM f s =
        ((f first s).1 :: (rest.mapM f (f first s).2).1, (rest.mapM f (f first s).2).2) := by
      rw [List.mapM_cons]
      rfl
    rw [run]
    have step := (each first).leads s
    refine List.Forall₂.cons ⟨s, leads_refl a s, rfl, ?_⟩ ?_
    · exact ((pervades_transparent a).mapM rest fun v _ => each v).leads _
    · exact (ih (f first s).2).imp fun v result ⟨here, reached, value, left⟩ =>
        ⟨here, leads_trans step reached, value, left⟩

/-! ### Members -/

/-- How an overload of a method is made of a declared one, between two sessions. -/
def Builds (a : Analysis) (substitution : Substitution) (selfType : Ty) (name : Name)
    (s later : Session) (declared : DeclaredOverload) (built : Overload) : Prop :=
  ∃ here, s.Leads a here ∧
    a.withEvidence name (a.instantiate declared.signature selfType (some substitution)
      (some declared.origin) here).1 = built ∧
    (a.instantiate declared.signature selfType (some substitution) (some declared.origin)
      here).2.Leads a later

variable {substitution : Substitution} {selfType : Ty}

theorem Builds.widen {name : Name} {s s' later later' : Session} {declared : DeclaredOverload}
    {built : Overload} (builds : a.Builds substitution selfType name s' later declared built)
    (before : s.Leads a s') (after : later.Leads a later') :
    a.Builds substitution selfType name s later' declared built := by
  obtain ⟨here, reached, value, left⟩ := builds
  exact ⟨here, leads_trans before reached, value, leads_trans left after⟩

theorem builds_memberOverloads (a : Analysis) (substitution : Substitution) (selfType : Ty)
    (member : Member) (s : Session) :
    List.Forall₂ (a.Builds substitution selfType member.name s
        (a.memberOverloads substitution selfType member s).2) member.overloads
      (a.memberOverloads substitution selfType member s).1 := by
  have each : ∀ declared : DeclaredOverload, a.Transparent (do
      let overload ← a.instantiate declared.signature selfType (some substitution)
        (some declared.origin)
      return a.withEvidence member.name overload) := fun declared =>
    ((pervades_transparent a).instantiate _ _ _ _).bind fun _ => Transparent.pure _
  exact Transparent.forall₂_mapM each member.overloads s

/-- The last member of a name stays, built between the first and the last session. -/
theorem find?_membersFrom (a : Analysis) (substitution : Substitution) (selfType : Ty)
    (members : List Member) (i : Interface) (s : Session) (name : Name) :
    match members.reverse.find? (·.name = name) with
    | none => (a.membersFrom substitution selfType members i s).1.find? name = i.find? name
    | some member => ∃ overloads,
        (a.membersFrom substitution selfType members i s).1.find? name = some overloads ∧
          List.Forall₂ (a.Builds substitution selfType name s
            (a.membersFrom substitution selfType members i s).2) member.overloads overloads := by
  induction members generalizing i s with
  | nil => exact rfl
  | cons member rest ih =>
    let overloads := a.memberOverloads substitution selfType member s
    have run : a.membersFrom substitution selfType (member :: rest) i s =
        a.membersFrom substitution selfType rest (i.put member.name overloads.1) overloads.2 := rfl
    have step : s.Leads a overloads.2 := ((pervades_transparent a).memberOverloads _ _ member).leads s
    have later := ((pervades_transparent a).membersFrom substitution selfType rest
      (i.put member.name overloads.1)).leads overloads.2
    have rest' := ih (i.put member.name overloads.1) overloads.2
    rw [List.reverse_cons, List.find?_append, run]
    -- A later member of the name is put over this one.
    cases found : rest.reverse.find? (·.name = name) with
    | some last =>
      rw [found] at rest'
      obtain ⟨os, present, built⟩ := rest'
      exact ⟨os, present, built.imp fun _ _ builds => builds.widen step (leads_refl a _)⟩
    | none =>
      rw [found] at rest'
      rw [Interface.put, Interface.find?, Interface.find?, NameMap.find?_insert] at rest'
      by_cases same : member.name = name
      · subst same
        rw [if_pos rfl] at rest'
        have here : [member].find? (·.name = member.name) = some member := by simp
        rw [here]
        exact ⟨overloads.1, rest', (builds_memberOverloads a substitution selfType member s).imp
          fun _ _ builds => builds.widen (leads_refl a s) later⟩
      · have absent : [member].find? (·.name = name) = none := by simp [same]
        rw [if_neg (Ne.symm same)] at rest'
        rw [absent]
        exact rest'

end Analysis

/-- The last member of a name that is visible. -/
def Definition.visible? (d : Definition) (includePrivate : Bool) (name : Name) : Option Member :=
  (d.members.filter fun m => includePrivate || !m.isPrivate).reverse.find? (·.name = name)

/-- The definition that the members of a type come from, and the arguments of the type. -/
inductive Environment.IsNamed (env : Environment) : Ty → Definition → List Ty → Prop where
  | ofClass {name : TypeName} {definition : Definition} (args : List Ty)
    (declared : env.instanceDefinition name = .ok definition) :
    IsNamed env (.instanceOf name args) definition args
  | ofInterface {name : TypeName} {definition : Definition} (args : List Ty)
    (declared : env.interfaceDefinition name = .ok definition) :
    IsNamed env (.interfaceOf name args) definition args

/-- A method that is not declared is not there; of one that is declared, the overloads are related to
the declared ones, one by one and in order. -/
def Overloaded (R : DeclaredOverload → Overload → Prop) :
    Option Member → Option (List Overload) → Prop :=
  Option.Rel fun member overloads => List.Forall₂ R member.overloads overloads

theorem Overloaded.imp {R R' : DeclaredOverload → Overload → Prop} {member : Option Member}
    {overloads : Option (List Overload)} (related : Overloaded R member overloads)
    (each : ∀ declared built, R declared built → R' declared built) :
    Overloaded R' member overloads := by
  cases related with
  | some pairs => exact Option.Rel.some (pairs.imp each)
  | none => exact Option.Rel.none

/-- Overloads that are related to the same declared ones in two ways. -/
theorem Overloaded.related {R R' : DeclaredOverload → Overload → Prop} {S : Overload → Overload → Prop}
    {member : Option Member} {os os' : Option (List Overload)} (first : Overloaded R member os)
    (second : Overloaded R' member os')
    (each : ∀ m ∈ member, ∀ d ∈ m.overloads, ∀ o o', R d o → R' d o' → S o o') :
    Option.Rel (List.Forall₂ S) os os' := by
  have inLists : ∀ {declared : List DeclaredOverload} {ls ls' : List Overload},
      (∀ d ∈ declared, ∀ o o', R d o → R' d o' → S o o') → List.Forall₂ R declared ls →
        List.Forall₂ R' declared ls' → List.Forall₂ S ls ls' := by
    intro declared ls ls' each pairs pairs'
    induction pairs generalizing ls' with
    | nil =>
      cases pairs'
      exact .nil
    | cons here _ ih =>
      cases pairs' with
      | cons here' rest' =>
        exact .cons (each _ List.mem_cons_self _ _ here here')
          (ih (fun d member => each d (List.mem_cons_of_mem _ member)) rest')
  cases first with
  | none =>
    cases second
    exact .none
  | some pairs =>
    cases second with
    | some pairs' => exact .some (inLists (each _ rfl) pairs pairs')

theorem Overloaded.of_single {R : DeclaredOverload → Overload → Prop} {name : Name}
    {isPrivate : Bool} {declared : DeclaredOverload} {built : Overload}
    (related : Overloaded R (some ⟨name, isPrivate, [declared]⟩) (some [built])) :
    R declared built := by
  obtain ⟨pairs⟩ := related
  exact (List.forall₂_cons.1 pairs).1

namespace Analysis

variable {a : Analysis} {t : Ty} {definition : Definition} {args : List Ty}

theorem find?_memberInterface (a : Analysis) (definition : Definition) (substitution : Substitution)
    (includePrivate : Bool) (selfType : Ty) (s : Session) (name : Name) :
    Overloaded (a.Builds substitution selfType name s
        (a.memberInterface definition substitution includePrivate selfType s).2)
      (definition.visible? includePrivate name)
      ((a.memberInterface definition substitution includePrivate selfType s).1.find? name) := by
  have spec := find?_membersFrom a substitution selfType
    (definition.members.filter fun m => includePrivate || !m.isPrivate)
    (.empty selfType includePrivate) s name
  unfold Definition.visible? memberInterface
  cases found : (definition.members.filter fun m => includePrivate || !m.isPrivate).reverse.find?
      (·.name = name) with
  | none =>
    rw [found] at spec
    have absent : (Interface.empty selfType includePrivate).find? name = none :=
      NameMap.find?_empty name
    rw [spec, absent]
    exact Option.Rel.none
  | some member =>
    rw [found] at spec
    obtain ⟨overloads, present, built⟩ := spec
    rw [present]
    exact Option.Rel.some built

/-- The interface of a named type needs as many arguments as the definition has type parameters. -/
theorem interfaceFor_run (named : a.env.IsNamed t definition args) (includePrivate : Bool)
    (selfType : Ty) :
    ∃ substitution : Substitution,
      substitution.bindings = .ofLists definition.typeParams args ∧
      substitution.slot .selfType = some selfType ∧
      ∀ s, a.interfaceFor t includePrivate selfType s =
        if definition.typeParams.length = args.length then
          let i := a.memberInterface definition substitution includePrivate selfType s
          (.ok i.1, i.2)
        else (.error (.arityMismatch definition.typeParams.length args.length), s) := by
  let bound : Substitution := ⟨.ofLists definition.typeParams args, fun _ => none⟩
  cases named with
  | @ofClass name _ _ declared =>
    let filled (s : Substitution) : Substitution :=
      ((s.fill .instanceType (.instanceOf name (List.replicate args.length .any))).fill
        .classType (.singletonOf name)).fill .selfType selfType
    refine ⟨filled bound, rfl, rfl, fun s => ?_⟩
    have run : a.interfaceFor (.instanceOf name args) includePrivate selfType s = (do
        let s ← Substitution.ofLists definition.typeParams args
        a.memberInterface definition (filled s) includePrivate selfType : AnalysisM Interface) s := by
      rw [interfaceFor, interfaceWithin, Ty.recurse_node]
      show a.instanceInterface name args includePrivate selfType s = _
      rw [instanceInterface, declared]
      rfl
    rw [run, Substitution.ofLists]
    by_cases same : definition.typeParams.length = args.length
    · rw [if_pos same, if_pos same]
      rfl
    · rw [if_neg same, if_neg same]
      rfl
  | @ofInterface name _ _ declared =>
    refine ⟨bound.fill .selfType selfType, rfl, rfl, fun s => ?_⟩
    have run : a.interfaceFor (.interfaceOf name args) includePrivate selfType s = (do
        let s ← Substitution.ofLists definition.typeParams args
        a.memberInterface definition (s.fill .selfType selfType) includePrivate selfType :
          AnalysisM Interface) s := by
      rw [interfaceFor, interfaceWithin, Ty.recurse_node]
      show a.interfaceInterface name args includePrivate selfType s = _
      rw [interfaceInterface, declared]
      rfl
    rw [run, Substitution.ofLists]
    by_cases same : definition.typeParams.length = args.length
    · rw [if_pos same, if_pos same]
      rfl
    · rw [if_neg same, if_neg same]
      rfl

/-- **The interface of a named type**: with as many arguments as there are type parameters it is
computed, and its methods are the visible members, built with a substitution that binds the type
parameters to the arguments. -/
theorem interfaceFor_named (named : a.env.IsNamed t definition args)
    (length : definition.typeParams.length = args.length) (includePrivate : Bool) (selfType : Ty)
    (s : Session) :
    ∃ (substitution : Substitution) (i : Interface),
      substitution.bindings = .ofLists definition.typeParams args ∧
      substitution.slot .selfType = some selfType ∧
      (a.interfaceFor t includePrivate selfType s).1 = .ok i ∧
      ∀ name, Overloaded (a.Builds substitution selfType name s
          (a.interfaceFor t includePrivate selfType s).2)
        (definition.visible? includePrivate name) (i.find? name) := by
  obtain ⟨substitution, bindings, filled, run⟩ := interfaceFor_run named includePrivate selfType
  rw [run s, if_pos length]
  exact ⟨substitution, _, bindings, filled, rfl,
    find?_memberInterface a definition substitution includePrivate selfType s⟩

theorem length_eq_of_interfaceFor (named : a.env.IsNamed t definition args)
    {includePrivate : Bool} {selfType : Ty} {s : Session} {i : Interface}
    (computed : (a.interfaceFor t includePrivate selfType s).1 = .ok i) :
    definition.typeParams.length = args.length := by
  obtain ⟨_, _, _, run⟩ := interfaceFor_run named includePrivate selfType
  rw [run s] at computed
  by_contra different
  rw [if_neg different] at computed
  cases computed

end Analysis

end SignatureAlgebra
