/-
**What an answer is like, whichever it is.**

Beside actions with one answer there are those of which only a property is known: on all sessions of a
kind, an answer that is given has it, a refusal has another one, and the session is of that kind again.
Such properties go through the same constructions as transparency, and along the same recursions.

* `Ensures` — a property of the result; `Ensures.bind` puts actions together.
* `Outcome`, `Ends` — a property of what is given, and one of what is refused; `Ends.bind`, `Ends.mapM`.
* `Ty.recurse_spec` — what holds of a recursion on types, type by type.
* `Session.OnWay` — a coherent session with given aliases on the way; `Analysis.ends_computing` adds
  one.
-/
import Mathlib.Data.List.Forall2
import SignatureAlgebra.Proofs.Analysis.Answers

namespace SignatureAlgebra

variable {α β σ : Type}

/-! ### Results -/

/-- **On all states of a kind, the result of an action is as wanted**, and the action leads to a state of
that kind. -/
def Ensures (kind : σ → Prop) (action : StateM σ α) (wanted : α → Prop) : Prop :=
  ∀ s, kind s → wanted (action s).1 ∧ kind (action s).2

namespace Ensures

variable {kind : σ → Prop} {wanted : α → Prop}

theorem pure {v : α} (holds : wanted v) : Ensures kind (pure v) wanted := fun _ start => ⟨holds, start⟩

theorem bind {x : StateM σ α} {f : α → StateM σ β} {wanted' : β → Prop}
    (first : Ensures kind x wanted) (next : ∀ v, wanted v → Ensures kind (f v) wanted') :
    Ensures kind (x >>= f) wanted' := by
  intro s start
  obtain ⟨holds, after⟩ := first s start
  exact next (x s).1 holds (x s).2 after

/-- An action with one answer. -/
theorem ofYields {x : StateM σ α} {v : α} (yields : Yields kind x v) (holds : wanted v) :
    Ensures kind x wanted := by
  intro s start
  obtain ⟨value, after⟩ := yields s start
  exact ⟨value ▸ holds, after⟩

end Ensures

/-! ### Related lists -/

theorem exists_left_of_forall₂ {R : α → β → Prop} {as : List α} {bs : List β}
    (pairs : List.Forall₂ R as bs) {b : β} (member : b ∈ bs) : ∃ a ∈ as, R a b := by
  induction pairs with
  | nil => cases member
  | cons here _ ih =>
    rcases List.mem_cons.1 member with rfl | later
    · exact ⟨_, List.mem_cons_self, here⟩
    · obtain ⟨a, isMember, related⟩ := ih later
      exact ⟨a, List.mem_cons_of_mem _ isMember, related⟩

theorem exists_right_of_forall₂ {R : α → β → Prop} {as : List α} {bs : List β}
    (pairs : List.Forall₂ R as bs) {a : α} (member : a ∈ as) : ∃ b ∈ bs, R a b :=
  exists_left_of_forall₂ (R := flip R) (List.Forall₂.flip pairs) member

/-! ### Outcomes -/

theorem map_eq_ok_iff {f : α → β} {result : Except Error α} {w : β} :
    result.map f = .ok w ↔ ∃ v, result = .ok v ∧ f v = w := by
  cases result with
  | ok v => simp [Except.map]
  | error e => simp [Except.map]

/-- What is given is as `given` says, and what is refused as `refused` says. -/
def Outcome (given : α → Prop) (refused : Error → Prop) : Except Error α → Prop
  | .ok v => given v
  | .error e => refused e

/-- Where nothing is said of what is refused. -/
theorem Outcome.of_ok {result : Except Error α} {given : α → Prop}
    (holds : ∀ v, result = .ok v → given v) : Outcome given (fun _ => True) result := by
  cases result with
  | error e => exact trivial
  | ok v => exact holds v rfl

/-- **On all states of a kind, an action that may fail has such an outcome**, and leads to a state of
that kind. -/
def Ends (kind : σ → Prop) (action : ExceptT Error (StateM σ) α) (given : α → Prop)
    (refused : Error → Prop) : Prop :=
  Ensures kind action.run (Outcome given refused)

namespace Ends

variable {kind : σ → Prop} {given given' : α → Prop} {refused refused' : Error → Prop}

theorem pure {v : α} (holds : given v) : Ends kind (pure v) given refused :=
  fun _ start => ⟨holds, start⟩

theorem throw {e : Error} (holds : refused e) :
    Ends kind (throw e : ExceptT Error (StateM σ) α) given refused :=
  fun _ start => ⟨holds, start⟩

theorem ofExcept {result : Except Error α} (holds : Outcome given refused result) :
    Ends kind (liftM result) given refused := fun _ start => ⟨holds, start⟩

theorem lift {x : StateM σ α} (inner : Ensures kind x given) : Ends kind (liftM x) given refused :=
  inner.bind fun _ holds => Ensures.pure holds

theorem imp {x : ExceptT Error (StateM σ) α} (ends : Ends kind x given refused)
    (weaker : ∀ v, given v → given' v) (weaker' : ∀ e, refused e → refused' e) :
    Ends kind x given' refused' := by
  intro s start
  obtain ⟨outcome, after⟩ := ends s start
  refine ⟨?_, after⟩
  match (x.run s).1, outcome with
  | .ok v, holds => exact weaker v holds
  | .error e, holds => exact weaker' e holds

/-- Two outcomes at once. -/
theorem and {x : ExceptT Error (StateM σ) α} (ends : Ends kind x given refused)
    (ends' : Ends kind x given' refused') :
    Ends kind x (fun v => given v ∧ given' v) fun e => refused e ∧ refused' e := by
  intro s start
  obtain ⟨outcome, after⟩ := ends s start
  obtain ⟨outcome', _⟩ := ends' s start
  refine ⟨?_, after⟩
  match (x.run s).1, outcome, outcome' with
  | .ok v, holds, holds' => exact ⟨holds, holds'⟩
  | .error e, holds, holds' => exact ⟨holds, holds'⟩

theorem bind {x : ExceptT Error (StateM σ) α} {f : α → ExceptT Error (StateM σ) β}
    {given' : β → Prop} (first : Ends kind x given refused)
    (next : ∀ v, given v → Ends kind (f v) given' refused) : Ends kind (x >>= f) given' refused := by
  show Ensures kind (x.run >>= ExceptT.bindCont f) (Outcome given' refused)
  refine Ensures.bind first fun result outcome => ?_
  match result, outcome with
  | .ok v, holds => exact next v holds
  | .error e, holds => exact Ensures.pure holds

/-- A refusal in front of an action. -/
theorem guarded {forbidden : Prop} [Decidable forbidden] {e : Error}
    {f : Unit → ExceptT Error (StateM σ) α} (stop : forbidden → refused e)
    (otherwise : ¬ forbidden → Ends kind (f ()) given refused) :
    Ends kind (if forbidden then MonadExcept.throw e >>= f else f ()) given refused := by
  by_cases holds : forbidden
  · rw [if_pos holds]
    have refusal : Ends kind (MonadExcept.throw e : ExceptT Error (StateM σ) PUnit) (fun _ => False)
        refused := throw (stop holds)
    exact refusal.bind nofun
  · rw [if_neg holds]
    exact otherwise holds

/-- The results of a list of actions are each as wanted; a refusal comes from one of them. -/
theorem mapM {f : α → ExceptT Error (StateM σ) β} {given : α → β → Prop} (values : List α)
    (each : ∀ v ∈ values, Ends kind (f v) (given v) refused) :
    Ends kind (values.mapM f) (List.Forall₂ given values) refused := by
  induction values with
  | nil => exact pure List.Forall₂.nil
  | cons first rest ih =>
    rw [List.mapM_cons]
    refine (each first List.mem_cons_self).bind fun w holds => ?_
    refine (ih fun v member => each v (List.mem_cons_of_mem _ member)).bind fun ws holds' => ?_
    exact pure (List.Forall₂.cons holds holds')

/-- The results of a list of actions of one outcome. -/
theorem mapM_forall {f : α → ExceptT Error (StateM σ) β} {given : β → Prop} (values : List α)
    (each : ∀ v ∈ values, Ends kind (f v) given refused) :
    Ends kind (values.mapM f) (fun results => ∀ w ∈ results, given w) refused := by
  have pairs : Ends kind (values.mapM f) (List.Forall₂ (fun _ => given) values) refused :=
    mapM values each
  refine pairs.imp (fun results holds w isResult => ?_) fun _ stays => stays
  obtain ⟨_, _, wanted⟩ := exists_left_of_forall₂ holds isResult
  exact wanted

end Ends

/-! ### Recursion on types -/

/-- What holds of a step's result whenever it holds at the places of the layer holds of every
recursion, type by type. -/
theorem Ty.recurse_spec {P : Ty → α → Prop} {step : Ty → Shape α → α}
    (each : ∀ (s : Shape Ty) (f : Ty → α), (∀ u ∈ s.toList, P u (f u)) → P ⟨s⟩ (step ⟨s⟩ (s.map f)))
    (t : Ty) : P t (t.recurse step) := by
  induction t using Ty.induction with
  | step t ih =>
    obtain ⟨s⟩ := t
    rw [recurse_node]
    exact each s _ ih

/-! ### Sessions -/

/-- A coherent session with these aliases on the way. -/
structure Session.OnWay (a : Analysis) (receivers : List Ty) (s : Session) : Prop where
  coherent : s.Coherent a
  receivers : s.receivers = receivers

namespace Analysis

variable {a : Analysis} {receivers : List Ty} {given : α → Prop} {refused : Error → Prop}

/-- A transparent action keeps the kind of a session. -/
theorem Transparent.ensures (acyclic : a.env.arena.Acyclic) {action : StateM Session α}
    (transparent : a.Transparent action) :
    Ensures (Session.OnWay a receivers) action fun _ => True := by
  intro s start
  have agree : Session.Agree a s s := ⟨rfl, rfl, rfl, start.coherent, start.coherent⟩
  exact ⟨trivial, (transparent.same acyclic s s agree).2.left,
    (transparent.grows s).receivers.trans start.receivers⟩

theorem Transparent.ends (acyclic : a.env.arena.Acyclic) {action : AnalysisM α}
    (transparent : a.Transparent action.run) :
    Ends (Session.OnWay a receivers) action (fun _ => True) fun _ => True := fun s start =>
  ⟨Outcome.of_ok fun _ _ => trivial, (transparent.ensures acyclic s start).2⟩

/-- A transparent action with one answer on coherent sessions keeps the aliases on the way. -/
theorem Transparent.onWay {action : StateM Session α} {v : α} (transparent : a.Transparent action)
    (yields : Yields (Session.Coherent a) action v) : Yields (Session.OnWay a receivers) action v := by
  intro s start
  obtain ⟨value, after⟩ := yields s start.coherent
  exact ⟨value, after, (transparent.grows s).receivers.trans start.receivers⟩

theorem onWay_toTy (acyclic : a.env.arena.Acyclic) (id : NodeId) :
    Yields (Session.OnWay a receivers) (a.toTy id) (a.env.arena.toTy id) :=
  (transparent_toTy a id).onWay (toTy_yields acyclic id)

theorem onWay_params (acyclic : a.env.arena.Acyclic) (p : DeclaredParams NodeId) :
    Yields (Session.OnWay a receivers) (a.params p) (p.map a.env.arena.toTy).toParams :=
  (transparent_params a p).onWay (params_yields acyclic p)

theorem onWay_unfold (acyclic : a.env.arena.Acyclic) (name : TypeName) :
    Yields (Session.OnWay a receivers) (a.unfold name).run (a.env.aliasType name) :=
  (transparent_unfold a name).onWay (unfold_yields acyclic name)

/-- One more alias on the way. -/
theorem onWay_cons {s : Session} (start : s.OnWay a receivers) (t : Ty) :
    Session.OnWay a (t :: receivers) { s with receivers := t :: s.receivers } :=
  ⟨⟨start.coherent.memo, start.coherent.unfolded⟩, congrArg (t :: ·) start.receivers⟩

/-- **One more alias on the way**, while an action goes on. -/
theorem ends_computing {t : Ty} {action : AnalysisM α}
    (inner : Ends (Session.OnWay a (t :: receivers)) action given refused) :
    Ends (Session.OnWay a receivers) (computing t action) given refused := by
  intro s start
  obtain ⟨outcome, after⟩ := inner _ (onWay_cons start t)
  refine ⟨outcome, ⟨after.coherent.memo, after.coherent.unfolded⟩, ?_⟩
  exact congrArg List.tail after.receivers

/-- The word `self`, which is refused where no receiver is known. -/
theorem ends_receiverLayer_self {kind : Session → Prop} {includePrivate : Bool}
    {follow : Ty → Ty → AnalysisM Interface} {selfType t : Ty} {given : Interface → Prop}
    (unknown : refused .selfWithoutReceiver)
    (follows : Ends kind (follow .selfType selfType) given refused) :
    Ends kind (a.receiverLayer includePrivate follow selfType t (.placeholder .selfType)) given
      refused := by
  show Ends kind (if selfType = .selfType then throw .selfWithoutReceiver
    else follow .selfType selfType) given refused
  split
  · exact Ends.throw unknown
  · exact follows

/-- An alias, where the aliases on the way are known. -/
theorem ends_receiverLayer_alias {includePrivate : Bool} {follow : Ty → Ty → AnalysisM Interface}
    {selfType : Ty} {name : TypeName} {args : List Ty} {results : List (AnalysisM Interface)}
    {given : Interface → Prop} {expanded : Ty → Prop}
    (again : .aliasOf name args ∈ receivers → refused (.recursiveAlias (.aliasOf name args)))
    (expands : Ends (Session.OnWay a receivers) (a.expandDeep (.aliasOf name args)) expanded refused)
    (follows : .aliasOf name args ∉ receivers → ∀ t, expanded t →
      Ends (Session.OnWay a (.aliasOf name args :: receivers)) (follow selfType t) given refused) :
    Ends (Session.OnWay a receivers)
      (a.receiverLayer includePrivate follow selfType (.aliasOf name args)
        (.applied .ofAlias name results)) given refused := by
  intro s start
  have layer : Ends (Session.OnWay a receivers) (do
      if .aliasOf name args ∈ receivers then throw (.recursiveAlias (.aliasOf name args))
      let t ← a.expandDeep (.aliasOf name args)
      computing (.aliasOf name args) (follow selfType t) : AnalysisM Interface) given refused := by
    refine Ends.guarded again fun other => ?_
    exact expands.bind fun t isExpanded => ends_computing (follows other t isExpanded)
  have run := layer s start
  rw [← start.receivers] at run
  rw [← start.receivers]
  exact run

end Analysis

end SignatureAlgebra
