/-
**What declaring refuses.**

No declaration can express an alias with arguments. Declaring a type meets the types that occur in it in
reading order, each before those below it, and is refused at the first alias with arguments, whatever the
arena is; the types of a function and of a method type are met one after the other.

* `Ty.refusal?` — why a type is refused, if it is; `Ty.refusal?_eq_none_iff`.
* `Declaring.Refuses` — whether an action is refused, and why; `Declaring.Refuses.mapM`.
* `Ty.refuses_declare`, `Ty.refuses_declareFunction`, `MethodType.refuses_declare` — for what a type, a function
  and a method type are refused.
* `Declaring.declare_failsAtFirst` — the statement: the alias that an error names is the first one.
-/
import SignatureAlgebra.Proofs.Conversion.Growth

namespace SignatureAlgebra

variable {α β : Type}

/-! ### The first alias with arguments -/

namespace Ty

/-- Why the outermost layer of a type is refused, if it is. -/
def layerRefusal? : Ty → Option Error
  | aliasOf name (_ :: _) => some (.aliasWithArguments name)
  | _ => none

/-- **Why a type is refused**, if it is: for the first alias with arguments, in reading order. -/
def refusal? (t : Ty) : Option Error := t.subterms.findSome? layerRefusal?

theorem layerRefusal?_eq_none_iff (t : Ty) : t.layerRefusal? = none ↔ t.aliasArguments = [] := by
  obtain ⟨s⟩ := t
  cases s with
  | applied head name args =>
    cases head with
    | ofAlias =>
      cases args with
      | nil => exact ⟨fun _ => rfl, fun _ => rfl⟩
      | cons arg args => exact ⟨nofun, nofun⟩
    | _ => exact ⟨fun _ => rfl, fun _ => rfl⟩
  | _ => exact ⟨fun _ => rfl, fun _ => rfl⟩

theorem refusal?_eq_none_iff {t : Ty} : t.refusal? = none ↔ t.IsDeclarable := by
  rw [refusal?, List.findSome?_eq_none_iff]
  exact forall₂_congr fun u _ => layerRefusal?_eq_none_iff u

theorem findSome?_refusal? (ts : List Ty) :
    ts.findSome? refusal? = (ts.flatMap subterms).findSome? layerRefusal? := by
  induction ts with
  | nil => rfl
  | cons u rest ih =>
    rw [List.flatMap_cons, List.findSome?_append, List.findSome?_cons, ih]
    show _ = Option.or u.refusal? _
    cases u.refusal? <;> rfl

theorem refusal?_eq (t : Ty) : t.refusal? = t.layerRefusal?.or (t.children.findSome? refusal?) := by
  rw [refusal?, subterms_eq, List.findSome?_cons, findSome?_refusal?]
  cases t.layerRefusal? <;> rfl

theorem layerRefusal?_eq_some_iff {t : Ty} {e : Error} : t.layerRefusal? = some e ↔
    ∃ name args, t = .aliasOf name args ∧ args ≠ [] ∧ e = .aliasWithArguments name := by
  constructor
  · intro refused
    have arguments : t.aliasArguments ≠ [] := fun none => by
      rw [(layerRefusal?_eq_none_iff t).2 none] at refused
      cases refused
    obtain ⟨name, arg, args, rfl⟩ := exists_of_aliasArguments arguments
    exact ⟨name, arg :: args, rfl, arguments, (Option.some.inj refused).symm⟩
  · rintro ⟨name, args, rfl, some, rfl⟩
    cases args with
    | nil => exact absurd rfl some
    | cons arg args => rfl

end Ty

/-! ### Actions that are refused -/

namespace Declaring

/-- **An action is refused for a reason**, or it is not refused, whatever the arena. -/
def Refuses (action : Declaring α) (reason : Option Error) : Prop :=
  ∀ arena : Arena, (reason = none ∧ ∃ v, (action arena).1 = .ok v) ∨
    ∃ e, reason = some e ∧ (action arena).1 = .error e

namespace Refuses

variable {x : Declaring α} {reason reason' : Option Error}

theorem pure (v : α) : Refuses (pure v) none := fun _ => Or.inl ⟨rfl, v, rfl⟩

theorem throw (e : Error) : Refuses (throw e : Declaring α) (some e) := fun _ => Or.inr ⟨e, rfl, rfl⟩

/-- The reason of the first action goes before that of the second one. -/
theorem bind {f : α → Declaring β} (first : Refuses x reason) (next : ∀ v, Refuses (f v) reason') :
    Refuses (x >>= f) (reason.or reason') := by
  intro arena
  have run : (x >>= f) arena = ExceptT.bindCont f (x arena).1 (x arena).2 := rfl
  rw [run]
  rcases first arena with ⟨rfl, v, given⟩ | ⟨e, rfl, refused⟩
  · rw [given, Option.none_or]
    exact next v (x arena).2
  · rw [refused]
    exact Or.inr ⟨e, rfl, rfl⟩

/-- Going through a list is refused for the first of its members that is refused. -/
theorem mapM {f : α → Declaring β} {reason : α → Option Error} (as : List α)
    (each : ∀ a ∈ as, Refuses (f a) (reason a)) : Refuses (as.mapM f) (as.findSome? reason) := by
  induction as with
  | nil => exact pure []
  | cons a rest ih =>
    have inRest := ih fun b member => each b (List.mem_cons_of_mem _ member)
    have both := (each a List.mem_cons_self).bind fun b => inRest.bind fun bs => pure (b :: bs)
    rw [List.mapM_cons, List.findSome?_cons]
    cases first : reason a with
    | none => rwa [first, Option.none_or, Option.or_none] at both
    | some e => rwa [first, Option.some_or] at both

/-- An action in step with one that is refused is refused for the same reason. -/
theorem of_inStep {y : Declaring β} {related : α → β → Prop} (step : InStep related x y)
    (refuses : Refuses y reason) : Refuses x reason := by
  intro arena
  obtain ⟨_, ⟨e, here, there⟩ | ⟨v, w, here, there, _⟩⟩ := InStep.of_except step arena
  · rcases refuses arena with ⟨_, w, given⟩ | ⟨e', rfl, refused⟩
    · exact absurd (there.symm.trans given) nofun
    · rw [Except.error.inj (refused.symm.trans there)]
      exact Or.inr ⟨e, rfl, here⟩
  · rcases refuses arena with ⟨rfl, _⟩ | ⟨e', _, refused⟩
    · exact Or.inl ⟨rfl, v, here⟩
    · exact absurd (there.symm.trans refused) nofun

end Refuses

end Declaring

/-! ### Declaring -/

/-- **Declaring a type** is refused for the first alias with arguments in it, and for nothing else. -/
theorem Ty.refuses_declare (t : Ty) : Declaring.Refuses t.declare t.refusal? := by
  induction t using Ty.induction with
  | step t ih =>
    by_cases plain : t.aliasArguments = []
    · obtain ⟨s⟩ := t
      rw [refusal?_eq, (layerRefusal?_eq_none_iff _).2 plain, Option.none_or, declare_node plain]
      have below : Declaring.Refuses (s.mapM declare) (s.toList.findSome? refusal?) :=
        .of_inStep (s.inStep_toList declare) (.mapM s.toList ih)
      have added : ∀ layer : Shape NodeId,
          Declaring.Refuses (Arena.alloc (M := Id) layer.toDeclared : Declaring NodeId) none :=
        fun _ arena => Or.inl ⟨rfl, arena.size, rfl⟩
      have both := below.bind added
      rwa [Option.or_none] at both
    · obtain ⟨name, arg, args, rfl⟩ := exists_of_aliasArguments plain
      rw [declare_alias, refusal?_eq]
      exact .throw _

/-- Declaring a function is refused for the first of its parameters that is refused, then for its result. -/
theorem Ty.refuses_declareFunction (params : Params Ty) (result : Ty) :
    Declaring.Refuses (declareFunction params result) ((params.toList ++ [result]).findSome? refusal?) := by
  have inParams : Declaring.Refuses (params.mapM declare) (params.toList.findSome? refusal?) :=
    .of_inStep (Params.inStep_toList declare params) (.mapM params.toList fun t _ => t.refuses_declare)
  have both := inParams.bind fun ids => result.refuses_declare.bind fun id =>
    .pure (⟨.ofParams ids, id⟩ : DeclaredFunction NodeId)
  rwa [List.findSome?_append, List.findSome?_singleton, ← Option.or_none (o := result.refusal?)]

/-- The types in a method type in the order in which they are declared: those of its function, then those of
its block. -/
def MethodType.declaredTypes (type : MethodType) : List Ty :=
  type.params.toList ++ [type.result] ++ type.block.toList.flatMap fun block => block.params.toList ++ [block.result]

/-- Declaring a method type is refused for the first of its types that is refused, its block last. -/
theorem MethodType.refuses_declare (type : MethodType) :
    Declaring.Refuses type.declare (type.declaredTypes.findSome? Ty.refusal?) := by
  unfold declare declaredTypes
  rw [List.findSome?_append]
  refine (Ty.refuses_declareFunction type.params type.result).bind fun function => ?_
  cases type.block with
  | none => exact .pure _
  | some block =>
    have inBlock := (Ty.refuses_declareFunction block.params block.result).bind fun blockFunction =>
      .pure (⟨type.typeParams, function, some ⟨blockFunction, !block.isOptional⟩⟩ : DeclaredMethod NodeId)
    rw [Option.or_none] at inBlock
    rwa [Option.toList_some, List.flatMap_singleton]

/-! ### The alias that is named -/

namespace Declaring

/-- **What comes of declaring types** in which `met` occur, in reading order: it fails exactly if an alias with
arguments is met, and the error names the first one. -/
structure FailsAtFirst (met : List Ty) (outcome : Except Error α) : Prop where
  fails_iff : (∃ e, outcome = .error e) ↔ ∃ name args, Ty.aliasOf name args ∈ met ∧ args ≠ []
  first : ∀ e, outcome = .error e → ∃ before name args after,
    met = before ++ Ty.aliasOf name args :: after ∧ args ≠ [] ∧ (∀ t ∈ before, t.aliasArguments = []) ∧
      e = .aliasWithArguments name

theorem Refuses.failsAtFirst {action : Declaring α} {ts : List Ty}
    (refuses : Refuses action (ts.findSome? Ty.refusal?)) (arena : Arena) :
    FailsAtFirst (ts.flatMap Ty.subterms) (action arena).1 := by
  rw [Ty.findSome?_refusal?] at refuses
  rcases refuses arena with ⟨reason, v, given⟩ | ⟨e, reason, refused⟩
  · rw [given]
    refine ⟨iff_of_false nofun ?_, nofun⟩
    rintro ⟨name, args, isMet, some⟩
    exact some ((Ty.layerRefusal?_eq_none_iff _).1 (List.findSome?_eq_none_iff.1 reason _ isMet))
  · obtain ⟨before, t, after, cut, here, earlier⟩ := List.findSome?_eq_some_iff.1 reason
    obtain ⟨name, args, rfl, some, rfl⟩ := Ty.layerRefusal?_eq_some_iff.1 here
    have isMet : Ty.aliasOf name args ∈ ts.flatMap Ty.subterms := by
      rw [cut]
      exact List.mem_append_right _ List.mem_cons_self
    rw [refused]
    refine ⟨iff_of_true ⟨_, rfl⟩ ⟨name, args, isMet, some⟩, fun e same => ?_⟩
    exact ⟨before, name, args, after, cut, some,
      fun t isBefore => (Ty.layerRefusal?_eq_none_iff t).1 (earlier t isBefore), (Except.error.inj same).symm⟩

/-- **Declaring fails exactly for an alias with arguments, and names the first one**, whatever the arena holds:
for a type in reading order, each type before those below it; for a function in its parameters, then in its
result; for a method type in its parameters and its result, then in the parameters and the result of its
block. -/
theorem declare_failsAtFirst (arena : Arena) :
    (∀ t : Ty, FailsAtFirst t.subterms (t.declare arena).1) ∧
    (∀ (params : Params Ty) (result : Ty),
      FailsAtFirst ((params.toList ++ [result]).flatMap Ty.subterms) (Ty.declareFunction params result arena).1) ∧
    ∀ type : MethodType, FailsAtFirst (type.declaredTypes.flatMap Ty.subterms) (type.declare arena).1 := by
  refine ⟨fun t => ?_, fun params result => ?_, fun type => ?_⟩
  · have single : Refuses t.declare ([t].findSome? Ty.refusal?) := by
      rw [List.findSome?_singleton]
      exact t.refuses_declare
    have whole := single.failsAtFirst arena
    rwa [List.flatMap_singleton] at whole
  · exact (Ty.refuses_declareFunction params result).failsAtFirst arena
  · exact type.refuses_declare.failsAtFirst arena

/-- The result stands before the block, and the outer alias before the one among its arguments. -/
example :
    let l : TypeName := .topLevel ⟨40⟩
    let m : TypeName := .topLevel ⟨41⟩
    let block : Block := ⟨false, .positional [.aliasOf l [.nil]], .nil⟩
    let type : MethodType := ⟨[], .empty, some block, .tuple [.aliasOf l [], .aliasOf m [.aliasOf l [.nil]]]⟩
    (type.declare (.empty 0)).1 = .error (.aliasWithArguments m) := rfl

end Declaring

end SignatureAlgebra
