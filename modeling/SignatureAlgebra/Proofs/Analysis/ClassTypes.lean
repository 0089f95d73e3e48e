/-
**Types of instances, and their interfaces.**

Two questions look at the arguments of a class type: the one for the type of the instances counts the type
parameters of the class itself, the one for the interface those of its instances. After any changes they are
the same, so both questions accept the same class types and refuse the others for the same reason.

* `Analysis.Verdicts` — the outcomes of both questions that go together.
* `Analysis.refused_of_class?_eq_none`, `instanceType_of_class?` — without a class and with one;
  `exists_instanceType_iff` — for which names there is a type.
* `Analysis.verdicts_interface` — what sharing type parameters leads to.
* `Analysis.instanceType_built` — the statement.
-/
import SignatureAlgebra.Analysis.Naming
import SignatureAlgebra.Proofs.Analysis.Privacy
import SignatureAlgebra.Proofs.Environment.Innermost

namespace SignatureAlgebra.Analysis

variable {a : Analysis} {name : TypeName} {args : List Ty}

/-- **Whether a class type is accepted**, and if not why: asked for the type, and asked for its
interface. -/
inductive Verdicts (name : TypeName) (args : List Ty) :
    Except Error Ty → Except Error Interface → Prop where
  | accepted (i : Interface) : Verdicts name args (.ok (.instanceOf name args)) (.ok i)
  | unknown : Verdicts name args (.error (.notAClass name)) (.error (.unknownType name))
  | miscounted (expected : Nat) (different : expected ≠ args.length) :
    Verdicts name args (.error (.argumentCount name expected args.length))
      (.error (.arityMismatch expected args.length))

theorem isNamed_of_class? {entry : ClassEntry} (declared : a.env.class? name = some entry)
    (args : List Ty) : a.env.IsNamed (.instanceOf name args) entry.instances args := by
  refine .ofClass args ?_
  rw [Environment.instanceDefinition, declared]

/-- Of a name that is no class or module there are neither types nor interfaces. -/
theorem refused_of_class?_eq_none (missing : a.env.class? name = none) :
    (∀ args, a.instanceType name args = .error (.notAClass name)) ∧
      ∀ args includePrivate s,
        (a.interface (.instanceOf name args) includePrivate s).1 = .error (.unknownType name) := by
  refine ⟨fun args => ?_, fun args includePrivate s => ?_⟩
  · rw [instanceType, Environment.classForm?, missing]
    rfl
  · have undeclared : a.env.instanceDefinition name = .error (.unknownType name) := by
      rw [Environment.instanceDefinition, missing]
    rw [interface, interfaceFor, interfaceWithin, Ty.recurse_node]
    show (a.instanceInterface name args includePrivate _ s).1 = _
    rw [instanceInterface, undeclared]
    rfl

/-- The type of the instances of a class or module. -/
theorem instanceType_of_class? {entry : ClassEntry} (declared : a.env.class? name = some entry)
    (args : Option (List Ty)) :
    a.instanceType name args =
      match args with
      | none => .ok (.instanceOf name (List.replicate entry.singleton.typeParams.length .any))
      | some args =>
        if args.length = entry.singleton.typeParams.length then .ok (.instanceOf name args)
        else .error (.argumentCount name entry.singleton.typeParams.length args.length) := by
  simp only [instanceType, Environment.classForm?, Environment.singletonDefinition, declared]
  cases args <;> rfl

/-- Without arguments there is a type for every class and module, and for nothing else. -/
theorem exists_instanceType_iff : (∃ t, a.instanceType name none = .ok t) ↔ (a.env.class? name).isSome := by
  cases declared : a.env.class? name with
  | none =>
    refine iff_of_false (fun ⟨t, given⟩ => ?_) Bool.false_ne_true
    cases (refused_of_class?_eq_none declared).1 none ▸ given
  | some entry => exact iff_of_true ⟨_, instanceType_of_class? declared none⟩ rfl

/-- **A class type is accepted or refused alike**, where classes share their type parameters. -/
theorem verdicts_interface (shares : a.env.SharesParams) (name : TypeName) (args : List Ty)
    (includePrivate : Bool) (s : Session) :
    Verdicts name args (a.instanceType name (some args))
      (a.interface (.instanceOf name args) includePrivate s).1 := by
  cases declared : a.env.class? name with
  | none =>
    obtain ⟨noType, noInterface⟩ := refused_of_class?_eq_none declared
    rw [noType, noInterface]
    exact .unknown
  | some entry =>
    obtain ⟨_, _, _, run⟩ :=
      interfaceFor_run (isNamed_of_class? declared args) includePrivate (.instanceOf name args)
    rw [instanceType_of_class? declared, interface, run s, ← shares name entry declared]
    show Verdicts name args (if _ then _ else _) _
    by_cases same : args.length = entry.singleton.typeParams.length
    · rw [if_pos same, if_pos same.symm]
      exact .accepted _
    · rw [if_neg same, if_neg (Ne.symm same)]
      exact .miscounted _ (Ne.symm same)

/-- **Types of instances, and interfaces of such types.** After any changes, made or refused, both questions
accept the same class types. Without arguments there is a type exactly for the names that were declared as
classes or modules; each has the form and the type parameters of its last declaration. The interface of that
type has the visible members of instances. -/
theorem instanceType_built (arenaId : Nat) (changes : List Change) (core : CoreNames)
    (joinRule : JoinRule) (name : TypeName) (includePrivate : Bool) (s : Session) :
    let a : Analysis := ⟨.built arenaId changes, core, joinRule⟩
    (∀ args, Verdicts name args (a.instanceType name (some args))
      (a.interface (.instanceOf name args) includePrivate s).1) ∧
    ((∃ t, a.instanceType name none = .ok t) ↔
      ∃ form typeParams, Change.declareClass name form typeParams ∈ changes) ∧
    a.env.declaredClass? name = changes.findSome? (Change.declaredClass? name) ∧
    match a.env.class? name with
    | none => a.instanceType name none = .error (.notAClass name)
    | some entry => ∃ t i, a.instanceType name none = .ok t ∧
        (a.interface t includePrivate s).1 = .ok i ∧
        ∀ method, (i.find? method).isSome ↔ ∃ member ∈ entry.instances.members,
          member.name = method ∧ (includePrivate = true ∨ member.isPrivate = false) := by
  intro a
  have shares : a.env.SharesParams := Environment.sharesParams_built arenaId changes
  refine ⟨fun args => verdicts_interface shares name args includePrivate s, ?_,
    Environment.declaredClass?_built arenaId changes name, ?_⟩
  · exact exists_instanceType_iff.trans (Environment.isSome_class?_built arenaId changes name)
  cases declared : a.env.class? name with
  | none => exact (refused_of_class?_eq_none declared).1 none
  | some entry =>
    let args := List.replicate entry.singleton.typeParams.length Ty.any
    have length : entry.instances.typeParams.length = args.length := by
      rw [List.length_replicate, shares name entry declared]
    obtain ⟨_, i, _, _, computed, methods⟩ :=
      interfaceFor_named (isNamed_of_class? declared args) length includePrivate (.instanceOf name args) s
    refine ⟨.instanceOf name args, i, instanceType_of_class? declared none, computed, fun method => ?_⟩
    rw [(methods method).isSome_eq]
    exact Definition.isSome_visible?_iff

end SignatureAlgebra.Analysis
