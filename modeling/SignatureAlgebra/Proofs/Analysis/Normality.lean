/-
**Questions about types in normal form have answers in normal form.**

Whatever an analysis answers is built from three sources: the types of nodes, the types of the question,
and the constructors of unions and intersections. The first are in normal form without any condition,
and the last two keep normal form, at every depth and on every way, those included on which a type is
returned as it came.

* `JoinRule.KeepsNormal`, `JoinRule.keepsNormal_structural` — joining overloads.
* `Analysis.fits_normal` — what is declared fits the vocabulary of types in normal form.
* `Analysis.normal_expandDeep`, `normal_unwrapOptional`, `normal_instantiate`, `normal_interfaceFor` —
  single questions.
* `Query.IsNormal`, `Query.IsNormalAnswer` — any question and its answer.
* `Analysis.keeps_normal` — the statement.
-/
import SignatureAlgebra.Proofs.Analysis.Vocabulary

namespace SignatureAlgebra

/-! ### Method types and definitions -/

theorem MethodType.isWithin_normal {type : MethodType} : type.IsWithin .normal ↔ type.IsNormal := by
  rw [MethodType.isNormal_iff]
  exact ⟨fun within t isType => (within t isType).isNormal trivial,
    fun normal t isType => (normal t isType).isWithin.withVars type.typeParams⟩

/-- A rule that joins overloads in normal form to overloads in normal form. -/
def JoinRule.KeepsNormal (rule : JoinRule) : Prop :=
  ∀ left right joined : Overload, left.type.IsNormal → right.type.IsNormal →
    rule left right = some joined → joined.type.IsNormal

theorem JoinRule.keepsNormal_structural : structural.KeepsNormal :=
  fun left right joined normal normal' found => MethodType.isWithin_normal.1
    (keepsVocabulary_structural .normal left right joined (MethodType.isWithin_normal.2 normal)
      (MethodType.isWithin_normal.2 normal') found)

/-- All signatures are in normal form. -/
theorem Definition.isWithin_normal (arena : Arena) (typeParams : List Name) (d : Definition) :
    d.IsWithin arena (Vocabulary.normal.withVars typeParams).withPlaceholders := by
  intro member _ declared _ t isType
  have normal : t.IsNormal := Analysis.isNormal_methodType arena declared.signature t isType
  exact (normal.isWithin.withVars typeParams).withPlaceholders.withVars _

namespace Analysis

variable {a : Analysis} {receivers : List Ty}

theorem fitsAliases_normal (a : Analysis) : Vocabulary.normal.FitsAliases a fun _ => True where
  aliases _ _ _ := Outcome.of_ok fun _ declared => (isNormal_aliasType declared).isWithin
  recursiveAlias _ := trivial

/-- **What is declared fits the vocabulary of types in normal form.** -/
theorem fits_normal (keeps : a.joinRule.KeepsNormal) : Vocabulary.normal.Fits a fun _ => True where
  toFitsAliases := fitsAliases_normal a
  instances _ _ _ := Outcome.of_ok fun d _ =>
    ⟨d.isWithin_normal _ d.typeParams, trivial, fun _ => trivial⟩
  singletons _ _ := Outcome.of_ok fun d _ => by
    refine ⟨fun member isMember declared isDeclared t isType => ?_, trivial⟩
    have normal : t.IsNormal := isNormal_methodType _ declared.signature t isType
    exact normal.isWithin.withPlaceholders.withVars _
  interfaces _ _ _ _ _ := Outcome.of_ok fun d _ =>
    ⟨d.isWithin_normal _ d.typeParams, fun _ => trivial⟩
  core _ _ := trivial
  joins left right joined within within' found := MethodType.isWithin_normal.2
    (keeps left right joined (MethodType.isWithin_normal.1 within)
      (MethodType.isWithin_normal.1 within') found)
  invalidReceiver _ := trivial
  selfWithoutReceiver := trivial

/-! ### Following aliases -/

/-- The body of an alias is in normal form. -/
theorem normal_unfold (acyclic : a.env.arena.Acyclic) (name : TypeName) :
    Ends (Session.OnWay a receivers) (a.unfold name) Ty.IsNormal fun _ => True :=
  Ensures.ofYields (onWay_unfold acyclic name) (Outcome.of_ok fun _ => isNormal_aliasType)

theorem normal_expandOne (acyclic : a.env.arena.Acyclic) {t : Ty} (normal : t.IsNormal) :
    Ends (Session.OnWay a receivers) (a.expandOne t) Ty.IsNormal fun _ => True := by
  unfold expandOne
  split
  · exact normal_unfold acyclic _
  · exact Ends.pure normal

theorem normal_expandDeep (acyclic : a.env.arena.Acyclic) {t : Ty} (normal : t.IsNormal) :
    Ends (Session.OnWay a receivers) (a.expandDeep t) Ty.IsNormal fun _ => True :=
  (within_expandDeep acyclic (fitsAliases_normal a) normal.isWithin).imp
    (fun _ within => within.isNormal trivial) fun _ stays => stays

theorem normal_followWithin (acyclic : a.env.arena.Acyclic) (bound : Nat) (path : List Ty) {t : Ty}
    (normal : t.IsNormal) :
    Ends (Session.OnWay a receivers) (a.followWithin bound path t) Ty.IsNormal fun _ => True := by
  induction bound generalizing path t with
  | zero =>
    unfold followWithin
    split
    · refine Ends.guarded (fun _ => trivial) fun _ => ?_
      exact (normal_unfold acyclic _).bind fun _ _ => Ends.throw trivial
    · exact Ends.pure normal
  | succ bound ih =>
    unfold followWithin
    split
    · refine Ends.guarded (fun _ => trivial) fun _ => ?_
      exact (normal_unfold acyclic _).bind fun body isNormal => ih _ isNormal
    · exact Ends.pure normal

/-- **Both parts of a type** that is split are in normal form. -/
theorem normal_unwrapOptional (acyclic : a.env.arena.Acyclic) {t : Ty} (normal : t.IsNormal) :
    Ends (Session.OnWay a receivers) (a.unwrapOptional t)
      (fun parts => parts.1.IsNormal ∧ ∀ falsy ∈ parts.2, falsy.IsNormal) fun _ => True := by
  refine (normal_followWithin acyclic _ [] normal).bind fun t normal => ?_
  split
  · rename_i members
    have part : ∀ p : Ty → Bool, (Ty.union (members.filter p)).IsNormal := fun p =>
      Ty.isNormal_union fun u isMember => normal.of_mem_children (List.mem_of_mem_filter isMember)
    refine Ends.pure ⟨part _, fun falsy isFalsy => ?_⟩
    split at isFalsy
    · cases isFalsy
    · obtain rfl := Option.some.inj isFalsy
      exact part _
  · exact Ends.pure ⟨normal, nofun⟩

/-! ### Overloads -/

theorem normal_renameTaken (acyclic : a.env.arena.Acyclic) (taken vars : List Name)
    {clashes : Substitution} (normal : clashes.IsNormal) :
    Ensures (Session.OnWay a receivers) (Session.renameTaken taken vars clashes)
      fun renamed => renamed.2.IsNormal := by
  induction vars generalizing clashes with
  | nil => exact Ensures.pure normal
  | cons name rest ih =>
    unfold Session.renameTaken
    by_cases clash : name ∈ taken
    · rw [if_pos clash]
      refine (((pervades_transparent a).freshName name).ensures acyclic).bind fun fresh _ => ?_
      have isVar : (Ty.var fresh).IsNormal := Ty.isNormal_of_children trivial rfl
      exact (ih (normal.bind name isVar)).bind fun renamed isNormal => Ensures.pure isNormal
    · rw [if_neg clash]
      exact (ih normal).bind fun renamed isNormal => Ensures.pure isNormal

/-- The parameters of a declared function are in normal form. -/
theorem normal_params (acyclic : a.env.arena.Acyclic) (p : DeclaredParams NodeId) :
    Ensures (Session.OnWay a receivers) (a.params p) fun params =>
      ∀ t ∈ params.toList, t.IsNormal :=
  Ensures.ofYields (onWay_params acyclic p) (a.env.arena.isNormal_toParams p)

theorem normal_toTy (acyclic : a.env.arena.Acyclic) (id : NodeId) :
    Ensures (Session.OnWay a receivers) (a.toTy id) Ty.IsNormal :=
  Ensures.ofYields (onWay_toTy acyclic id) (a.env.arena.isNormal_toTy id)

/-- No substitution does the same as one that binds and fills nothing. -/
theorem instantiate_none (signature : DeclaredMethod NodeId) (selfType : Ty) (origin : Option Origin) :
    a.instantiate signature selfType none origin =
      a.instantiate signature selfType (some .empty) origin := by
  simp only [instantiate, Substitution.merge_empty]

/-- **An overload** that is made of a declared one is in normal form if the substitution is. -/
theorem normal_instantiate (acyclic : a.env.arena.Acyclic) (signature : DeclaredMethod NodeId)
    (selfType : Ty) {substitution : Option Substitution} (normal : ∀ s ∈ substitution, s.IsNormal)
    (origin : Option Origin) :
    Ensures (Session.OnWay a receivers) (a.instantiate signature selfType substitution origin)
      fun overload => overload.type.IsNormal := by
  suffices substituted : ∀ s : Substitution, s.IsNormal → Ensures (Session.OnWay a receivers)
      (a.instantiate signature selfType (some s) origin) fun overload => overload.type.IsNormal by
    cases substitution with
    | none =>
      rw [instantiate_none]
      exact substituted .empty Substitution.isNormal_empty
    | some s => exact substituted s (normal s rfl)
  intro s isNormal
  refine (normal_renameTaken acyclic _ _ Substitution.isNormal_empty).bind fun renamed clashes => ?_
  obtain ⟨typeParams, clash⟩ := renamed
  have merged : (clash.merge s true).IsNormal := Substitution.IsNormal.merge clashes isNormal
  refine (normal_params acyclic _).bind fun params inParams => ?_
  refine (normal_toTy acyclic _).bind fun result isResult => ?_
  cases signature.block with
  | none =>
    exact Ensures.pure ⟨merged.applyParams inParams, by rintro _ ⟨⟩, by rintro _ ⟨⟩,
      merged.apply isResult⟩
  | some block =>
    refine (normal_params acyclic _).bind fun blockParams inBlock => ?_
    refine (normal_toTy acyclic _).bind fun blockResult isBlockResult => ?_
    refine Ensures.pure ⟨merged.applyParams inParams, fun b isBlock => ?_, fun b isBlock => ?_,
      merged.apply isResult⟩
    · obtain rfl := Option.some.inj isBlock
      exact merged.applyParams inBlock
    · obtain rfl := Option.some.inj isBlock
      exact merged.apply isBlockResult

/-- **Every overload of an interface** is in normal form if the type and the receiver are. -/
theorem normal_interfaceFor (acyclic : a.env.arena.Acyclic) (keeps : a.joinRule.KeepsNormal)
    {includePrivate : Bool} {selfType t : Ty} (receiver : selfType.IsNormal) (normal : t.IsNormal) :
    Ends (Session.OnWay a receivers) (a.interfaceFor t includePrivate selfType)
      Interface.IsNormal fun _ => True :=
  (within_interfaceFor acyclic (fits_normal keeps) receiver.isWithin
    ⟨normal.isWithin, fun _ _ _ => ⟨trivial, trivial⟩⟩).imp
      (fun _ within => within.imp fun _ => MethodType.isWithin_normal.1) fun _ stays => stays

/-! ### Names -/

theorem isNormal_resolveToAbsolute {t absolute : Ty} {context : Namespace}
    (answered : a.resolveToAbsolute t context = .ok absolute) : absolute.IsNormal := by
  unfold resolveToAbsolute at answered
  split at answered
  · cases answered
  · obtain rfl := Except.ok.inj answered
    exact Arena.isNormal_toTy _ _

theorem isNormal_instanceType {name : TypeName} {args : Option (List Ty)} {t : Ty}
    (normal : ∀ ts ∈ args, ∀ t ∈ ts, t.IsNormal) (answered : a.instanceType name args = .ok t) :
    t.IsNormal := by
  unfold instanceType at answered
  by_cases noClass : (a.env.classForm? name).isNone
  · rw [if_pos noClass] at answered
    cases answered
  · rw [if_neg noClass] at answered
    cases declared : a.env.singletonDefinition name with
    | error e => rw [declared] at answered; cases answered
    | ok definition =>
      rw [declared] at answered
      cases args with
      | none =>
        obtain rfl := Except.ok.inj answered
        exact Ty.isNormal_applied (Ty.isNormal_replicate_any _)
      | some args =>
        by_cases length : args.length = definition.typeParams.length
        · simp only [bind, Except.bind, if_pos length] at answered
          obtain rfl := Except.ok.inj answered
          exact Ty.isNormal_applied (normal args rfl)
        · simp only [bind, Except.bind, if_neg length] at answered
          cases answered

end Analysis

/-! ### Any question -/

/-- Every type that a question is about is in normal form. -/
def Query.IsNormal : Query → Prop
  | typeOf _ | paramsOf _ | unfold _ => True
  | expandOne t | expandDeep t | unwrapOptional t | resolveToAbsolute t _ | interface t _ => t.IsNormal
  | instantiate _ selfType substitution _ => selfType.IsNormal ∧ ∀ s ∈ substitution, s.IsNormal
  | interfaceFor t _ selfType => t.IsNormal ∧ selfType.IsNormal
  | instanceType _ args => ∀ ts ∈ args, ∀ t ∈ ts, t.IsNormal

/-- Every type of an answer is in normal form; of an interface, every overload is. -/
def Query.IsNormalAnswer : (question : Query) → question.Answer → Prop
  | typeOf _, t => Ty.IsNormal t
  | unfold _, t => Ty.IsNormal t
  | expandOne _, t => Ty.IsNormal t
  | expandDeep _, t => Ty.IsNormal t
  | resolveToAbsolute _ _, t => Ty.IsNormal t
  | instanceType _ _, t => Ty.IsNormal t
  | paramsOf _, params => ∀ t ∈ Params.toList params, Ty.IsNormal t
  | unwrapOptional _, parts => Ty.IsNormal (Prod.fst parts) ∧ ∀ falsy ∈ Prod.snd parts, Ty.IsNormal falsy
  | instantiate _ _ _ _, overload => (Overload.type overload).IsNormal
  | interface _ _, i => Interface.IsNormal i
  | interfaceFor _ _ _, i => Interface.IsNormal i

namespace Analysis

variable {a : Analysis} {receivers : List Ty}

theorem normal_answer (acyclic : a.env.arena.Acyclic) (keeps : a.joinRule.KeepsNormal)
    {question : Query} (normal : question.IsNormal) :
    Ends (Session.OnWay a receivers) (a.answer question) question.IsNormalAnswer fun _ => True := by
  cases question with
  | typeOf id => exact Ends.lift (normal_toTy acyclic id)
  | paramsOf params => exact Ends.lift (normal_params acyclic params)
  | unfold name => exact normal_unfold acyclic name
  | expandOne t => exact normal_expandOne acyclic normal
  | expandDeep t => exact normal_expandDeep acyclic normal
  | unwrapOptional t => exact normal_unwrapOptional acyclic normal
  | instantiate signature selfType substitution origin =>
    exact Ends.lift (normal_instantiate acyclic signature selfType normal.2 origin)
  | interface t includePrivate => exact normal_interfaceFor acyclic keeps normal normal
  | interfaceFor t includePrivate selfType => exact normal_interfaceFor acyclic keeps normal.2 normal.1
  | resolveToAbsolute t context =>
    exact Ends.ofExcept (Outcome.of_ok fun _ answered => isNormal_resolveToAbsolute answered)
  | instanceType name args =>
    exact Ends.ofExcept (Outcome.of_ok fun _ answered => isNormal_instanceType normal answered)

/-- **Normal form is kept everywhere.** The type of any node is in normal form. A substitution of types
in normal form keeps types, parameters and method types in normal form, and the structural join keeps
overloads so. At any time a question about types in normal form has an answer in normal form, with any
rule for joining overloads that keeps normal form. -/
theorem keeps_normal (a : Analysis) :
    (∀ (arena : Arena) (id : NodeId), (arena.toTy id).IsNormal) ∧
    (∀ s : Substitution, s.IsNormal →
      (∀ t : Ty, t.IsNormal → (s.apply t).IsNormal) ∧
      (∀ p : Params Ty, (∀ t ∈ p.toList, t.IsNormal) → ∀ t ∈ (s.applyParams p).toList, t.IsNormal) ∧
      ∀ type : MethodType, type.IsNormal → (s.applyMethodType type).IsNormal) ∧
    JoinRule.structural.KeepsNormal ∧
    (a.env.arena.Acyclic → a.joinRule.KeepsNormal →
      ∀ (names : Interner) (nextFresh : Nat) (events : List Event) (question : Query),
        question.IsNormal → ∀ answer,
          (a.answer question (a.after (.start names nextFresh) events)).1 = .ok answer →
            question.IsNormalAnswer answer) := by
  refine ⟨Arena.isNormal_toTy, fun s normal => ⟨fun _ => normal.apply, fun _ => normal.applyParams,
    fun _ => normal.applyMethodType⟩, JoinRule.keepsNormal_structural, ?_⟩
  intro acyclic keeps names nextFresh events question normal answer answered
  have idle : a.Idle (a.after (.start names nextFresh) events) :=
    idle_after acyclic (idle_start a names nextFresh) events
  have outcome := (normal_answer acyclic keeps normal _ ⟨idle.coherent, idle.receivers⟩).1
  change Outcome _ _ (a.answer question (a.after (.start names nextFresh) events)).1 at outcome
  rw [answered] at outcome
  exact outcome

open Boxes in
/-- The interface of a box of `T?`, after a question, and that box with `untyped` for `T`. -/
theorem keeps_normal_box :
    let receiver := Ty.instanceOf box [.optional (.var varT)]
    let analysis := declaring varE varT
    let s := analysis.after (.start names 1) [.ask (.typeOf 1)]
    let i := offering receiver (mapped ⟨30⟩ (.optional (.var varT)) (.var ⟨30⟩))
    let substitution := Substitution.empty.bind varT .any
    analysis.env.arena.Acyclic ∧ receiver.IsNormal ∧
      (analysis.answer (.interface receiver false) s).1 = .ok i ∧ i.IsNormal ∧
      substitution.IsNormal ∧ (substitution.apply receiver).IsNormal ∧
      substitution.apply receiver = .instanceOf box [.any] := by
  intro receiver analysis s i substitution
  have normal : receiver.IsNormal := by decide
  have bound : substitution.IsNormal :=
    Substitution.isNormal_empty.bind varT (Ty.isNormal_of_children trivial rfl)
  have computed : (analysis.answer (.interface receiver false) s).1 = .ok i := by rfl
  obtain ⟨_, applied, _, answers⟩ := keeps_normal analysis
  have isNormal : i.IsNormal := answers (acyclic varE varT) JoinRule.keepsNormal_structural names 1
    [.ask (.typeOf 1)] (.interface receiver false) normal i computed
  exact ⟨acyclic varE varT, normal, computed, isNormal, bound, (applied substitution bound).1 receiver
    normal, by decide⟩

end Analysis

end SignatureAlgebra
