/-
**Which definition of a method introduced a member.**

Members are copied from definition to definition, and each overload carries the place where it was defined.
A ledger kept beside the environment says the same without looking at any member: what is declared has no
entries, defining a method makes an entry, and inheriting copies the entries of names that have none. Every
member is as the definition made it that its entry names.

* `Ledger.record` — the ledger after one change that is made.
* `introducer?` — the ledger after any changes, made or refused.
* `Environment.IsExplainedBy.record`, `isExplainedBy_introducer?` — one change, any changes.
* `Environment.mem_of_introducer?` — an entry names a definition that was asked for.
-/
import SignatureAlgebra.Proofs.Environment.Changes

namespace SignatureAlgebra

/-- Which definition of a method introduced the member of a name. -/
abbrev Ledger : Type := Holder → Name → Option MethodDefinition

/-- **The ledger after a change that is made**: what is declared has no members, a method that is defined
takes its name, and an inherited one keeps the entry it has at its source, unless its name is taken. -/
def Ledger.record (env : Environment) (ledger : Ledger) : Change → Ledger
  | .alloc _ => ledger
  | .declareAlias _ _ => ledger
  | .declareClass declared _ _ => fun holder name =>
    if holder = .instancesOf declared ∨ holder = .singletonOf declared then none else ledger holder name
  | .declareInterface declared _ => Function.update ledger (.interface declared) fun _ => none
  | .defineMethod method =>
    let holder := env.holder method.owner method.level
    Function.update ledger holder (Function.update (ledger holder) method.name (some method))
  | .inheritMethods source target level =>
    let holder := env.holder target level
    Function.update ledger holder fun name =>
      (ledger holder name).or (ledger (env.holder source level) name)

/-- **The definition of a method that introduced each member**, after some changes, the last of them first
in the list. -/
def introducer? (arenaId : Nat) : List Change → Ledger
  | [] => fun _ _ => none
  | change :: earlier =>
    let env := Environment.built arenaId earlier
    match (change.make env).1 with
    | .ok _ => (introducer? arenaId earlier).record env change
    | .error _ => introducer? arenaId earlier

namespace Environment

variable {env next : Environment} {ledger : Ledger} {change : Change}

/-- A ledger that has an entry for every member, and the member is as that definition made it. -/
def IsExplainedBy (env : Environment) (ledger : Ledger) : Prop :=
  ∀ holder d, env.definitionOf holder = .ok d →
    ∀ name, d.member? name = (ledger holder name).map MethodDefinition.member

/-- Where one definition changes, the entries for it change. -/
theorem IsExplainedBy.update (explained : env.IsExplainedBy ledger) {holder : Holder} {d' : Definition}
    {entries : Name → Option MethodDefinition}
    (definitions : ∀ other,
      next.definitionOf other = if other = holder then .ok d' else env.definitionOf other)
    (members : ∀ name, d'.member? name = (entries name).map MethodDefinition.member) :
    next.IsExplainedBy (Function.update ledger holder entries) := by
  intro other d found name
  rw [definitions] at found
  by_cases here : other = holder
  · rw [if_pos here] at found
    rw [here, Function.update_self, ← Except.ok.inj found]
    exact members name
  · rw [if_neg here] at found
    rw [Function.update_of_ne here]
    exact explained other d found name

/-- **One change that is made.** -/
theorem IsExplainedBy.record (explained : env.IsExplainedBy ledger)
    (made : change.result env = .ok next) : next.IsExplainedBy (ledger.record env change) := by
  cases change with
  | alloc node =>
    obtain rfl := Except.ok.inj made
    exact explained
  | declareAlias name body =>
    obtain rfl := Except.ok.inj made
    exact explained
  | declareClass declared form typeParams =>
    obtain rfl := Except.ok.inj made
    intro holder d found name
    rw [definitionOf_declareClass] at found
    show _ = Option.map _ (ite _ _ _)
    by_cases here : holder = .instancesOf declared ∨ holder = .singletonOf declared
    · rw [if_pos here] at found ⊢
      exact Except.ok.inj found ▸ rfl
    · rw [if_neg here] at found ⊢
      exact explained holder d found name
  | declareInterface declared typeParams =>
    obtain rfl := Except.ok.inj made
    exact explained.update (env.definitionOf_declareInterface declared typeParams) fun _ => rfl
  | defineMethod method =>
    obtain ⟨d, found, rfl⟩ := defineMethod_eq made
    refine explained.update (definitionOf_setMembersOf found _) fun name => ?_
    rw [Definition.member?_define, explained _ d (definitionOf_holder found), Function.update_apply,
      apply_ite (Option.map MethodDefinition.member)]
    rfl
  | inheritMethods source target level =>
    obtain ⟨from', d, found, found', rfl⟩ := inheritMethods_eq made
    refine explained.update (definitionOf_setMembersOf found' _) fun name => ?_
    have inherited : from'.members.find? (·.name = name) = _ :=
      explained _ from' (definitionOf_holder found) name
    rw [Definition.member?_inherit, inherited, explained _ d (definitionOf_holder found'), Option.map_or]

/-- **Every member is as the definition made it that introduced it**, after any changes. -/
theorem isExplainedBy_introducer? (arenaId : Nat) (changes : List Change) :
    (built arenaId changes).IsExplainedBy (introducer? arenaId changes) := by
  induction changes with
  | nil => intro holder d found; cases holder <;> cases found
  | cons change earlier ih =>
    rw [built, introducer?, Change.make_eq]
    cases made : change.result (built arenaId earlier) with
    | error e => exact ih
    | ok next => exact ih.record made

/-- An entry is there before a change that is made, or is what the change defines. -/
theorem entry_of_record {holder : Holder} {name : Name} {method : MethodDefinition}
    (entered : ledger.record env change holder name = some method) :
    (∃ earlier, ledger earlier name = some method) ∨
      change = .defineMethod method ∧ method.name = name := by
  cases change with
  | alloc _ => exact .inl ⟨holder, entered⟩
  | declareAlias _ _ => exact .inl ⟨holder, entered⟩
  | declareClass _ _ _ => exact .inl ⟨holder, (Option.ite_none_left_eq_some.1 entered).2⟩
  | declareInterface declared _ =>
    rw [Ledger.record, Function.update_apply] at entered
    split at entered
    · cases entered
    · exact .inl ⟨holder, entered⟩
  | defineMethod defined =>
    rw [Ledger.record, Function.update_apply] at entered
    split at entered
    · rw [Function.update_apply] at entered
      split at entered
      · next named =>
        obtain rfl := Option.some.inj entered
        exact .inr ⟨rfl, named.symm⟩
      · exact .inl ⟨_, entered⟩
    · exact .inl ⟨holder, entered⟩
  | inheritMethods source target level =>
    rw [Ledger.record, Function.update_apply] at entered
    split at entered
    · rcases Option.or_eq_some_iff.1 entered with own | ⟨_, inherited⟩
      · exact .inl ⟨_, own⟩
      · exact .inl ⟨_, inherited⟩
    · exact .inl ⟨holder, entered⟩

/-- What introduced a member is a method of its name that was defined. -/
theorem mem_of_introducer? {arenaId : Nat} {changes : List Change} {holder : Holder} {name : Name}
    {method : MethodDefinition} (introduced : introducer? arenaId changes holder name = some method) :
    .defineMethod method ∈ changes ∧ method.name = name := by
  induction changes generalizing holder with
  | nil => cases introduced
  | cons change earlier ih =>
    rw [introducer?] at introduced
    cases made : (change.make (built arenaId earlier)).1 with
    | error e =>
      simp only [made] at introduced
      obtain ⟨isEarlier, named⟩ := ih introduced
      exact ⟨List.mem_cons_of_mem _ isEarlier, named⟩
    | ok _ =>
      simp only [made] at introduced
      rcases entry_of_record introduced with ⟨holder', before⟩ | ⟨rfl, named⟩
      · obtain ⟨isEarlier, named⟩ := ih before
        exact ⟨List.mem_cons_of_mem _ isEarlier, named⟩
      · exact ⟨List.mem_cons_self, named⟩

end Environment

end SignatureAlgebra
