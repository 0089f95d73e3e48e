/-
**Changes of an environment, made or refused.**

An environment is changed in place: what a change needs is looked up first, and a look-up may be refused.
Nodes, declarations, definitions and inheritances come in any order. Every change that is made edits at
most one definition that was there before, and none leads to a name that is there twice.

* `Holder`, `Environment.definitionOf` — the definitions of an environment and what they belong to.
* `Environment.Edits` — one definition changes and nothing else.
* `MethodDefinition`, `Change`, `Change.make` — what an environment is asked for.
* `Environment.built`, `Environment.built_induction` — any changes, and what holds after them;
  `Environment.IsReached.exists_built` — which environments these are.
* `Environment.Defined`, `Environment.Inherited` — the two changes that may be refused.
* `Environment.built_keeps` — the statement.
-/
import SignatureAlgebra.Proofs.Environment.Members
import SignatureAlgebra.Proofs.Environment.Reached

namespace SignatureAlgebra

/-! ### What definitions belong to -/

/-- What a definition belongs to: the instances of a class or module, the class or module itself, or an
interface. -/
inductive Holder where
  | instancesOf (name : TypeName)
  | singletonOf (name : TypeName)
  | interface (name : TypeName)
deriving DecidableEq

namespace Environment

variable {env : Environment} {owner : TypeName} {level : MemberLevel} {d d' : Definition}

/-- The definition that belongs to something declared. -/
def definitionOf (env : Environment) : Holder → Except Error Definition
  | .instancesOf name => env.instanceDefinition name
  | .singletonOf name => env.singletonDefinition name
  | .interface name => env.interfaceDefinition name

/-- What the members at that level of `owner` belong to. -/
def holder (env : Environment) (owner : TypeName) (level : MemberLevel) : Holder :=
  match env.class? owner, level with
  | some _, .ofInstance => .instancesOf owner
  | some _, .ofSingleton => .singletonOf owner
  | none, _ => .interface owner

theorem definitionOf_holder (found : env.membersOf owner level = .ok d) :
    env.definitionOf (env.holder owner level) = .ok d := by
  unfold membersOf at found
  unfold holder
  cases declared : env.class? owner with
  | none =>
    rw [declared] at found
    cases level with
    | ofInstance => exact found
    | ofSingleton => cases found
  | some entry =>
    rw [declared] at found
    cases level with
    | ofInstance => simpa [definitionOf, instanceDefinition, declared] using found
    | ofSingleton => simpa [definitionOf, singletonDefinition, declared] using found

/-- What is entered shows under its name, and nothing else changes. -/
theorem lookup_entered {κ α : Type} [BEq κ] [LawfulBEq κ] [DecidableEq κ] (key : κ) (value : α)
    (entries : List (κ × α)) (other : κ) :
    ((key, value) :: entries).lookup other = if other = key then some value else entries.lookup other := by
  rw [List.lookup_cons]
  by_cases same : other = key
  · rw [if_pos same, same, beq_self_eq_true]
  · rw [if_neg same, beq_false_of_ne same]

/-- A new class has no members, and no other definition changes. -/
theorem definitionOf_declareClass (env : Environment) (name : TypeName) (form : ClassForm)
    (typeParams : List Name) (holder : Holder) :
    (env.declareClass name form typeParams).definitionOf holder =
      if holder = .instancesOf name ∨ holder = .singletonOf name then .ok ⟨typeParams, []⟩
      else env.definitionOf holder := by
  cases holder with
  | interface _ => rfl
  | _ other =>
    by_cases same : other = name <;>
      simp [definitionOf, instanceDefinition, singletonDefinition, class?, declareClass, lookup_entered,
        same]

/-- A new interface has no members, and no other definition changes. -/
theorem definitionOf_declareInterface (env : Environment) (name : TypeName) (typeParams : List Name)
    (holder : Holder) :
    (env.declareInterface name typeParams).definitionOf holder =
      if holder = .interface name then .ok ⟨typeParams, []⟩ else env.definitionOf holder := by
  cases holder with
  | interface other =>
    by_cases same : other = name <;>
      simp [definitionOf, interfaceDefinition, declareInterface, lookup_entered, same]
  | _ _ => rfl

/-- Setting a definition changes no other. -/
theorem definitionOf_setMembersOf (found : env.membersOf owner level = .ok d) (d' : Definition)
    (holder : Holder) :
    (env.setMembersOf owner level d').definitionOf holder =
      if holder = env.holder owner level then .ok d' else env.definitionOf holder := by
  unfold membersOf at found
  unfold setMembersOf Environment.holder
  cases declared : env.class? owner with
  | none =>
    rw [declared] at found
    cases level with
    | ofSingleton => cases found
    | ofInstance =>
      cases holder with
      | interface other =>
        by_cases same : other = owner <;>
          simp [definitionOf, interfaceDefinition, lookup_entered, same]
      | _ _ => rfl
  | some entry =>
    have declared' := declared
    unfold class? at declared'
    cases holder with
    | interface _ => cases level <;> simp [definitionOf, interfaceDefinition]
    | _ other =>
      cases level <;> by_cases same : other = owner <;>
        simp [definitionOf, instanceDefinition, singletonDefinition, class?, lookup_entered, same, declared']

/-- **One definition changes**, and only in its members; everything else stays. -/
structure Edits (env : Environment) (holder : Holder) (d d' : Definition) (next : Environment) :
    Prop where
  found : env.definitionOf holder = .ok d
  typeParams : d'.typeParams = d.typeParams
  definitions : ∀ other,
    next.definitionOf other = if other = holder then .ok d' else env.definitionOf other
  classForms : ∀ name, next.classForm? name = env.classForm? name
  aliases : next.aliases = env.aliases
  arena : next.arena = env.arena

theorem edits_setMembersOf (found : env.membersOf owner level = .ok d)
    (kept : d'.typeParams = d.typeParams) :
    env.Edits (env.holder owner level) d d' (env.setMembersOf owner level d') where
  found := definitionOf_holder found
  typeParams := kept
  definitions := definitionOf_setMembersOf found d'
  classForms name := by
    unfold setMembersOf
    cases declared : env.class? owner with
    | none => rfl
    | some entry =>
      have declared' := declared
      unfold class? at declared'
      cases level <;> by_cases same : name = owner <;>
        simp [classForm?, class?, lookup_entered, same, declared']
  aliases := by
    unfold setMembersOf
    split <;> rfl
  arena := arena_setMembersOf env owner level d'

/-- No definition has two members of one name. -/
def HasUniqueMembers (env : Environment) : Prop :=
  ∀ holder d, env.definitionOf holder = .ok d → d.Unique

/-- What is unique in a definition that changes is so in all. -/
theorem HasUniqueMembers.edits {next : Environment} {holder : Holder} (unique : env.HasUniqueMembers)
    (edits : env.Edits holder d d' next) (kept : d.Unique → d'.Unique) : next.HasUniqueMembers := by
  intro other definition found
  rw [edits.definitions] at found
  by_cases same : other = holder
  · rw [if_pos same] at found
    exact Except.ok.inj found ▸ kept (unique holder d edits.found)
  · rw [if_neg same] at found
    exact unique other definition found

/-- Definitions that are declared have no members. -/
theorem HasUniqueMembers.declared {next : Environment} {isNew : Holder → Prop} [DecidablePred isNew]
    {typeParams : List Name} (unique : env.HasUniqueMembers)
    (definitions : ∀ holder, next.definitionOf holder =
      if isNew holder then .ok ⟨typeParams, []⟩ else env.definitionOf holder) :
    next.HasUniqueMembers := by
  intro holder d found
  rw [definitions] at found
  split at found
  · exact Except.ok.inj found ▸ List.nodup_nil
  · exact unique holder d found

/-- **One step** keeps members unique. -/
theorem HasUniqueMembers.step {env' : Environment} (unique : env.HasUniqueMembers)
    (becomes : env.Becomes env') : env'.HasUniqueMembers := by
  cases becomes with
  | declareClass name form typeParams =>
    exact unique.declared (env.definitionOf_declareClass name form typeParams)
  | declareInterface name typeParams =>
    exact unique.declared (env.definitionOf_declareInterface name typeParams)
  | defineMethod defined =>
    obtain ⟨definition, found, rfl⟩ := defineMethod_eq defined
    exact unique.edits (edits_setMembersOf found (definition.typeParams_define _))
      fun unique => unique.define _
  | inheritMethods inherited =>
    obtain ⟨from', definition, _, found, rfl⟩ := inheritMethods_eq inherited
    exact unique.edits (edits_setMembersOf found (definition.typeParams_inherit from'.members))
      fun unique => unique.inherit from'.members
  | _ => exact unique

end Environment

/-! ### Changes -/

/-- A method as it is defined under a declared name. -/
structure MethodDefinition where
  owner : TypeName
  level : MemberLevel
  name : Name
  isPrivate : Bool
  signatures : List (DeclaredMethod NodeId)

/-- The member that a definition makes: all its overloads have the definition as their origin. -/
def MethodDefinition.member (method : MethodDefinition) : Member where
  name := method.name
  isPrivate := method.isPrivate
  overloads := method.signatures.map fun signature => ⟨signature, ⟨method.owner, method.level⟩⟩

/-- **A change that an environment is asked for.** -/
inductive Change where
  | alloc (node : Declared NodeId)
  | declareClass (name : TypeName) (form : ClassForm) (typeParams : List Name)
  | declareInterface (name : TypeName) (typeParams : List Name)
  | declareAlias (name : TypeName) (body : NodeId)
  | defineMethod (method : MethodDefinition)
  | inheritMethods (source target : TypeName) (level : MemberLevel)

namespace Change

/-- The environment that a change leads to. -/
def result (env : Environment) : Change → Except Error Environment
  | .alloc node => .ok { env with arena := env.arena.push node }
  | .declareClass name form typeParams => .ok (env.declareClass name form typeParams)
  | .declareInterface name typeParams => .ok (env.declareInterface name typeParams)
  | .declareAlias name body => .ok (env.declareAlias name body)
  | .defineMethod method =>
    env.defineMethod method.owner method.level method.name method.isPrivate method.signatures
  | .inheritMethods source target level => env.inheritMethods source target level

/-- Looks up the definition for members at that level of `owner`. -/
def lookUp (owner : TypeName) (level : MemberLevel) : ExceptT Error (StateM Environment) Definition := do
  (← get).membersOf owner level

/-- Changes an environment in place: what is needed is looked up first, and a look-up may be refused. -/
def make : Change → ExceptT Error (StateM Environment) Unit
  | .alloc node => modify fun env => { env with arena := env.arena.push node }
  | .declareClass name form typeParams => modify (·.declareClass name form typeParams)
  | .declareInterface name typeParams => modify (·.declareInterface name typeParams)
  | .declareAlias name body => modify (·.declareAlias name body)
  | .defineMethod method => do
    let definition ← lookUp method.owner method.level
    modify (·.setMembersOf method.owner method.level (definition.define method.member))
  | .inheritMethods source target level => do
    let inherited ← lookUp source level
    let definition ← lookUp target level
    modify (·.setMembersOf target level (definition.inherit inherited.members))

/-- After a look-up that is not refused the rest goes on with what is found. -/
theorem lookUp_bind (env : Environment) (owner : TypeName) (level : MemberLevel)
    (f : Definition → ExceptT Error (StateM Environment) Unit) :
    (lookUp owner level >>= f) env =
      match env.membersOf owner level with
      | .error e => (.error e, env)
      | .ok d => f d env := by
  show ExceptT.bindCont f (env.membersOf owner level) env = _
  cases env.membersOf owner level <;> rfl

theorem make_defineMethod (env : Environment) (method : MethodDefinition) :
    (Change.defineMethod method).make env =
      match env.membersOf method.owner method.level with
      | .error e => (.error e, env)
      | .ok d => (.ok (), env.setMembersOf method.owner method.level (d.define method.member)) :=
  lookUp_bind env method.owner method.level _

theorem make_inheritMethods (env : Environment) (source target : TypeName) (level : MemberLevel) :
    (Change.inheritMethods source target level).make env =
      match env.membersOf source level with
      | .error e => (.error e, env)
      | .ok inherited =>
        match env.membersOf target level with
        | .error e => (.error e, env)
        | .ok d => (.ok (), env.setMembersOf target level (d.inherit inherited.members)) := by
  refine (lookUp_bind env source level _).trans ?_
  cases env.membersOf source level with
  | error e => rfl
  | ok inherited => exact lookUp_bind env target level _

/-- **Changing an environment in place leads to the environment that the change leads to**, and a change
that is refused leaves it as it is. -/
theorem make_eq (env : Environment) (change : Change) :
    change.make env =
      match change.result env with
      | .error e => (.error e, env)
      | .ok next => (.ok (), next) := by
  cases change with
  | defineMethod method =>
    rw [make_defineMethod, result, Environment.defineMethod]
    cases env.membersOf method.owner method.level <;> rfl
  | inheritMethods source target level =>
    rw [make_inheritMethods, result, Environment.inheritMethods]
    cases env.membersOf source level with
    | error e => rfl
    | ok inherited => cases env.membersOf target level <;> rfl
  | _ => rfl

end Change

/-! ### Any changes in any order -/

namespace Environment

variable {env : Environment}

/-- **The environment after some changes**, the last of them first in the list. -/
def built (arenaId : Nat) : List Change → Environment
  | [] => .empty arenaId
  | change :: earlier => (change.make (built arenaId earlier)).2

/-- What holds of an empty environment and is kept by new nodes and by every step holds after any
changes. -/
theorem built_induction {P : Environment → Prop} (initially : ∀ arenaId, P (.empty arenaId))
    (allocated : ∀ env node, P env → P { env with arena := env.arena.push node })
    (kept : ∀ env env', P env → env.Becomes env' → P env') (arenaId : Nat) (changes : List Change) :
    P (built arenaId changes) := by
  induction changes with
  | nil => exact initially arenaId
  | cons change earlier ih =>
    rw [built, Change.make_eq]
    cases made : change.result (built arenaId earlier) with
    | error e => exact ih
    | ok next =>
      cases change with
      | alloc node => exact Except.ok.inj made ▸ allocated _ node ih
      | declareClass name form typeParams =>
        exact Except.ok.inj made ▸ kept _ _ ih (.declareClass name form typeParams)
      | declareInterface name typeParams =>
        exact Except.ok.inj made ▸ kept _ _ ih (.declareInterface name typeParams)
      | declareAlias name body => exact Except.ok.inj made ▸ kept _ _ ih (.declareAlias name body)
      | defineMethod method => exact kept _ _ ih (.defineMethod made)
      | inheritMethods source target level => exact kept _ _ ih (.inheritMethods made)

/-- One step is a change that is made. -/
theorem Becomes.exists_change {env' : Environment} (becomes : env.Becomes env') :
    ∃ change : Change, change.result env = .ok env' := by
  cases becomes with
  | alloc node _ => exact ⟨.alloc node, rfl⟩
  | declareClass name form typeParams => exact ⟨.declareClass name form typeParams, rfl⟩
  | declareInterface name typeParams => exact ⟨.declareInterface name typeParams, rfl⟩
  | declareAlias name body => exact ⟨.declareAlias name body, rfl⟩
  | @defineMethod owner level name isPrivate signatures _ defined =>
    exact ⟨.defineMethod ⟨owner, level, name, isPrivate, signatures⟩, defined⟩
  | @inheritMethods source target level _ inherited =>
    exact ⟨.inheritMethods source target level, inherited⟩

/-- **Every environment that is reached is one after some changes**, so what holds after any changes holds
of it. -/
theorem IsReached.exists_built (reached : env.IsReached) :
    ∃ arenaId changes, built arenaId changes = env := by
  induction reached with
  | empty arenaId => exact ⟨arenaId, [], rfl⟩
  | step _ becomes ih =>
    obtain ⟨arenaId, changes, rfl⟩ := ih
    obtain ⟨change, made⟩ := becomes.exists_change
    exact ⟨arenaId, change :: changes, by rw [built, Change.make_eq, made]⟩

/-- **After any changes a class has the type parameters of its instances.** -/
theorem sharesParams_built (arenaId : Nat) (changes : List Change) : (built arenaId changes).SharesParams :=
  built_induction (fun _ _ _ found => nomatch found) (fun _ _ shares => shares)
    (fun _ _ shares becomes => shares.step becomes) arenaId changes

/-- **After any changes no definition has a name twice.** -/
theorem hasUniqueMembers_built (arenaId : Nat) (changes : List Change) :
    (built arenaId changes).HasUniqueMembers := by
  refine built_induction (fun _ holder _ found => ?_) (fun _ _ unique => unique)
    (fun _ _ unique becomes => unique.step becomes) arenaId changes
  cases holder <;> cases found

/-- **What defining a method does**: one member is put in one definition, or nothing happens. -/
inductive Defined (env : Environment) (method : MethodDefinition) :
    Except Error Unit × Environment → Prop where
  | refused {e : Error} (missing : env.membersOf method.owner method.level = .error e) :
    Defined env method (.error e, env)
  | made {d d' : Definition} {next : Environment}
    (found : env.membersOf method.owner method.level = .ok d)
    (edits : env.Edits (env.holder method.owner method.level) d d' next)
    (puts : method.member.Puts d.members d'.members) : Defined env method (.ok (), next)

/-- **What inheriting methods does**: behind the members of one definition come those of another whose
name is not among them, in order and as they are, or nothing happens. -/
inductive Inherited (env : Environment) (source target : TypeName) (level : MemberLevel) :
    Except Error Unit × Environment → Prop where
  | noSource {e : Error} (missing : env.membersOf source level = .error e) :
    Inherited env source target level (.error e, env)
  | noTarget {from' : Definition} {e : Error} (found : env.membersOf source level = .ok from')
    (missing : env.membersOf target level = .error e) : Inherited env source target level (.error e, env)
  | made {from' d d' : Definition} {next : Environment} (found : env.membersOf source level = .ok from')
    (found' : env.membersOf target level = .ok d) (edits : env.Edits (env.holder target level) d d' next)
    (added : d'.members =
      d.members ++ from'.members.filter fun member => (d.member? member.name).isNone) :
    Inherited env source target level (.ok (), next)

theorem defined_make (env : Environment) (method : MethodDefinition) :
    env.Defined method ((Change.defineMethod method).make env) := by
  rw [Change.make_defineMethod]
  cases found : env.membersOf method.owner method.level with
  | error e => exact .refused found
  | ok d =>
    exact .made found (edits_setMembersOf found (d.typeParams_define method.member))
      (d.puts_define method.member)

theorem inherited_make (unique : env.HasUniqueMembers) (source target : TypeName) (level : MemberLevel) :
    env.Inherited source target level ((Change.inheritMethods source target level).make env) := by
  rw [Change.make_inheritMethods]
  cases found : env.membersOf source level with
  | error e => exact .noSource found
  | ok inherited =>
    cases found' : env.membersOf target level with
    | error e => exact .noTarget found found'
    | ok d =>
      exact .made found found' (edits_setMembersOf found' (d.typeParams_inherit inherited.members))
        (d.members_inherit (unique _ inherited (definitionOf_holder found)))

/-- Inheriting one's own methods changes no definition. -/
theorem definitionOf_of_inherited {owner : TypeName} {level : MemberLevel}
    {outcome : Except Error Unit × Environment} (inherited : env.Inherited owner owner level outcome)
    (holder : Holder) : outcome.2.definitionOf holder = env.definitionOf holder := by
  cases inherited with
  | noSource _ => rfl
  | noTarget _ _ => rfl
  | @made from' d d' next found found' edits added =>
    obtain rfl : from' = d := Except.ok.inj (found.symm.trans found')
    have nothing : (from'.members.filter fun member => (from'.member? member.name).isNone) = [] := by
      refine List.filter_eq_nil_iff.2 fun member isMember absent => ?_
      exact Definition.member?_eq_none_iff.1 (Option.isNone_iff_eq_none.1 absent) member isMember rfl
    rw [nothing, List.append_nil] at added
    have same : d' = from' := by
      obtain ⟨typeParams, members⟩ := d'
      exact congr (congrArg Definition.mk edits.typeParams) added
    rw [edits.definitions, same]
    by_cases here : holder = env.holder owner level
    · rw [if_pos here, here, edits.found]
    · rw [if_neg here]

/-- **What holds of an environment after any changes**, whether they were made or refused. No definition
has a name twice, so an interface is made of the members that look-ups find; the two definitions of a class
have the same type parameters. The next change is made or refused: a method that is defined takes the place
of the one of its name, inherited members come behind those that are there, and a change that is refused
leaves everything as it is. -/
theorem built_keeps (arenaId : Nat) (changes : List Change) :
    let env := built arenaId changes
    (∀ holder d, env.definitionOf holder = .ok d → d.Unique ∧
      ∀ (a : Analysis) (substitution : Substitution) (includePrivate : Bool) (selfType : Ty) (s : Session)
        (name : Name),
        let run := a.memberInterface d substitution includePrivate selfType s
        Overloaded (a.Builds substitution selfType name s run.2)
          ((d.member? name).filter fun member => includePrivate || !member.isPrivate)
          (run.1.find? name)) ∧
    env.SharesParams ∧
    (∀ method, env.Defined method ((Change.defineMethod method).make env)) ∧
    (∀ source target level,
      env.Inherited source target level ((Change.inheritMethods source target level).make env)) ∧
    (∀ owner level holder,
      ((Change.inheritMethods owner owner level).make env).2.definitionOf holder =
        env.definitionOf holder) ∧
    ∀ (change : Change) (e : Error), (change.make env).1 = .error e → (change.make env).2 = env := by
  intro env
  have unique : env.HasUniqueMembers := hasUniqueMembers_built arenaId changes
  refine ⟨fun holder d found => ⟨unique holder d found, ?_⟩, sharesParams_built arenaId changes,
    defined_make env, inherited_make unique,
    fun owner level => definitionOf_of_inherited (inherited_make unique owner owner level), ?_⟩
  · intro a substitution includePrivate selfType s name
    rw [← Definition.visible?_eq (unique holder d found) includePrivate name]
    exact a.find?_memberInterface d substitution includePrivate selfType s name
  · intro change e refused
    rw [Change.make_eq] at refused ⊢
    cases made : change.result env with
    | error _ => rfl
    | ok next =>
      rw [made] at refused
      cases refused

end Environment

end SignatureAlgebra
