/-
**Environments that declarations lead to.**

An environment grows by nodes over earlier nodes, by declarations and by definitions of members; a
declaration may replace an earlier one of its name. What every step keeps holds of every environment that
is reached.

* `Environment.Becomes` — one step; `Environment.IsReached` — any number of steps from nothing.
* `Environment.IsReached.invariant` — what every step keeps.
* `Environment.IsReached.acyclic` — the arena of a reached environment is acyclic.
* `Environment.IsReached.sharesParams` — a class has the type parameters of its instances.
-/
import SignatureAlgebra.Environment
import SignatureAlgebra.Proofs.Conversion.Unrolling

namespace SignatureAlgebra

/-! ### Members -/

namespace Definition

theorem typeParams_define (d : Definition) (member : Member) :
    (d.define member).typeParams = d.typeParams := rfl

theorem typeParams_inherit (d : Definition) (members : List Member) :
    (d.inherit members).typeParams = d.typeParams := by
  refine List.foldlRecOn members offer (motive := fun d' => d'.typeParams = d.typeParams) rfl
    fun d' kept member _ => ?_
  unfold offer
  split
  · exact kept
  · exact kept

end Definition

namespace Environment

variable {env env' : Environment}

/-! ### Entries -/

theorem mem_of_lookup {α : Type} {entries : List (TypeName × α)} {name : TypeName} {value : α}
    (found : entries.lookup name = some value) : (name, value) ∈ entries := by
  obtain ⟨before, after, split, _⟩ := List.lookup_eq_some_iff.1 found
  rw [split]
  exact List.mem_append_right _ List.mem_cons_self

theorem mem_of_instanceDefinition {name : TypeName} {d : Definition}
    (declared : env.instanceDefinition name = .ok d) :
    ∃ entry, (name, entry) ∈ env.classes ∧ entry.instances = d := by
  unfold instanceDefinition at declared
  cases found : env.class? name with
  | none => rw [found] at declared; cases declared
  | some entry =>
    rw [found] at declared
    exact ⟨entry, mem_of_lookup found, Except.ok.inj declared⟩

theorem mem_of_singletonDefinition {name : TypeName} {d : Definition}
    (declared : env.singletonDefinition name = .ok d) :
    ∃ entry, (name, entry) ∈ env.classes ∧ entry.singleton = d := by
  unfold singletonDefinition at declared
  cases found : env.class? name with
  | none => rw [found] at declared; cases declared
  | some entry =>
    rw [found] at declared
    exact ⟨entry, mem_of_lookup found, Except.ok.inj declared⟩

theorem mem_of_interfaceDefinition {name : TypeName} {d : Definition}
    (declared : env.interfaceDefinition name = .ok d) : (name, d) ∈ env.interfaces := by
  unfold interfaceDefinition at declared
  cases found : env.interfaces.lookup name with
  | none => rw [found] at declared; cases declared
  | some definition =>
    rw [found] at declared
    exact Except.ok.inj declared ▸ mem_of_lookup found

theorem mem_of_aliasBody {name : TypeName} {body : NodeId} (declared : env.aliasBody name = .ok body) :
    (name, body) ∈ env.aliases := by
  unfold aliasBody at declared
  cases found : env.aliases.lookup name with
  | none => rw [found] at declared; cases declared
  | some id =>
    rw [found] at declared
    exact Except.ok.inj declared ▸ mem_of_lookup found

/-! ### Steps -/

/-- **One step of building an environment.** -/
inductive Becomes (env : Environment) : Environment → Prop where
  | alloc (node : Declared NodeId) (known : ∀ child ∈ node.toList, child < env.arena.size) :
    Becomes env { env with arena := env.arena.push node }
  | declareClass (name : TypeName) (form : ClassForm) (typeParams : List Name) :
    Becomes env (env.declareClass name form typeParams)
  | declareInterface (name : TypeName) (typeParams : List Name) :
    Becomes env (env.declareInterface name typeParams)
  | declareAlias (name : TypeName) (body : NodeId) : Becomes env (env.declareAlias name body)
  | defineMethod {owner : TypeName} {level : MemberLevel} {name : Name} {isPrivate : Bool}
    {signatures : List (DeclaredMethod NodeId)} {env' : Environment}
    (defined : env.defineMethod owner level name isPrivate signatures = .ok env') : Becomes env env'
  | inheritMethods {source target : TypeName} {level : MemberLevel} {env' : Environment}
    (inherited : env.inheritMethods source target level = .ok env') : Becomes env env'

/-- **An environment that is reached** from one in which nothing is declared. -/
inductive IsReached : Environment → Prop where
  | empty (arenaId : Nat) : IsReached (.empty arenaId)
  | step {env env' : Environment} (reached : IsReached env) (becomes : env.Becomes env') :
    IsReached env'

/-- What holds of an empty environment and is kept by every step holds of every environment that is
reached. -/
theorem IsReached.invariant {P : Environment → Prop} (initially : ∀ arenaId, P (.empty arenaId))
    (kept : ∀ env env', P env → env.Becomes env' → P env') (reached : env.IsReached) : P env := by
  induction reached with
  | empty arenaId => exact initially arenaId
  | step _ becomes ih => exact kept _ _ ih becomes

/-- Defining a method puts a member in its definition. -/
theorem defineMethod_eq {owner : TypeName} {level : MemberLevel} {name : Name} {isPrivate : Bool}
    {signatures : List (DeclaredMethod NodeId)}
    (defined : env.defineMethod owner level name isPrivate signatures = .ok env') :
    ∃ definition, env.membersOf owner level = .ok definition ∧
      env' = env.setMembersOf owner level (definition.define
        ⟨name, isPrivate, signatures.map fun signature => ⟨signature, ⟨owner, level⟩⟩⟩) := by
  unfold defineMethod at defined
  cases found : env.membersOf owner level with
  | error e => rw [found] at defined; cases defined
  | ok definition =>
    rw [found] at defined
    exact ⟨definition, rfl, (Except.ok.inj defined).symm⟩

/-- Inheriting methods adds the members of one definition to another. -/
theorem inheritMethods_eq {source target : TypeName} {level : MemberLevel}
    (inherited : env.inheritMethods source target level = .ok env') :
    ∃ from' definition, env.membersOf source level = .ok from' ∧
      env.membersOf target level = .ok definition ∧
      env' = env.setMembersOf target level (definition.inherit from'.members) := by
  unfold inheritMethods at inherited
  cases found : env.membersOf source level with
  | error e => rw [found] at inherited; cases inherited
  | ok from' =>
    rw [found] at inherited
    cases found' : env.membersOf target level with
    | error e =>
      simp only [bind, Except.bind, found'] at inherited
      cases inherited
    | ok definition =>
      simp only [bind, Except.bind, found'] at inherited
      exact ⟨from', definition, rfl, rfl, (Except.ok.inj inherited).symm⟩

/-! ### The arena -/

theorem arena_setMembersOf (env : Environment) (owner : TypeName) (level : MemberLevel)
    (definition : Definition) : (env.setMembersOf owner level definition).arena = env.arena := by
  unfold setMembersOf
  split <;> rfl

/-- **The arena of a reached environment is acyclic.** -/
theorem IsReached.acyclic (reached : env.IsReached) : env.arena.Acyclic := by
  refine reached.invariant (P := fun env => env.arena.Acyclic) Arena.acyclic_empty
    fun env env' acyclic becomes => ?_
  cases becomes with
  | alloc node known => exact acyclic.push known
  | defineMethod defined =>
    obtain ⟨definition, _, rfl⟩ := defineMethod_eq defined
    rwa [arena_setMembersOf]
  | inheritMethods inherited =>
    obtain ⟨_, definition, _, _, rfl⟩ := inheritMethods_eq inherited
    rwa [arena_setMembersOf]
  | _ => exact acyclic

/-! ### Type parameters -/

/-- Every class or module has the type parameters of its instances. -/
def SharesParams (env : Environment) : Prop :=
  ∀ name entry, env.class? name = some entry →
    entry.singleton.typeParams = entry.instances.typeParams

/-- A new entry of a class shows under its name. -/
theorem SharesParams.cons (shares : env.SharesParams) {entry : ClassEntry}
    (same : entry.singleton.typeParams = entry.instances.typeParams) (name : TypeName) :
    SharesParams { env with classes := (name, entry) :: env.classes } := by
  intro name' entry' found
  change List.lookup name' ((name, entry) :: env.classes) = some entry' at found
  rw [List.lookup_cons] at found
  split at found
  · exact Option.some.inj found ▸ same
  · exact shares name' entry' found

theorem SharesParams.setMembersOf (shares : env.SharesParams) {owner : TypeName} {level : MemberLevel}
    {definition definition' : Definition} (found : env.membersOf owner level = .ok definition)
    (kept : definition'.typeParams = definition.typeParams) :
    (env.setMembersOf owner level definition').SharesParams := by
  unfold membersOf at found
  unfold Environment.setMembersOf
  cases declared : env.class? owner with
  | none => exact shares
  | some entry =>
    rw [declared] at found
    have same := shares owner entry declared
    cases level with
    | ofInstance =>
      obtain rfl := Except.ok.inj found
      refine shares.cons ?_ owner
      exact same.trans kept.symm
    | ofSingleton =>
      obtain rfl := Except.ok.inj found
      refine shares.cons ?_ owner
      exact kept.trans same

/-- One step keeps the type parameters shared. -/
theorem SharesParams.step (shares : env.SharesParams) (becomes : env.Becomes env') :
    env'.SharesParams := by
  cases becomes with
  | declareClass name form typeParams => exact shares.cons rfl name
  | defineMethod defined =>
    obtain ⟨definition, found, rfl⟩ := defineMethod_eq defined
    exact shares.setMembersOf found (definition.typeParams_define _)
  | inheritMethods inherited =>
    obtain ⟨from', definition, _, found, rfl⟩ := inheritMethods_eq inherited
    exact shares.setMembersOf found (definition.typeParams_inherit from'.members)
  | _ => exact shares

/-- **In a reached environment a class has the type parameters of its instances.** -/
theorem IsReached.sharesParams (reached : env.IsReached) : env.SharesParams :=
  reached.invariant (fun _ _ _ found => nomatch found) fun _ _ shares becomes => shares.step becomes

end Environment

end SignatureAlgebra
