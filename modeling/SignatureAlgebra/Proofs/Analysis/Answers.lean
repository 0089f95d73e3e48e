/-
**What holds of every answer.**

The questions follow aliases, instantiate overloads and compute interfaces. They look at the session in
a few places: they find types of nodes and bodies of aliases, make fresh names, and read and mark the
aliases on the way. All else is putting actions together. So a property of actions that holds in those
places, and that putting together keeps, holds of every question, by the question's own recursion: on
the members of a type, and on the number of steps that are left.

* `Analysis.Pervades` — such a property.
* `Analysis.Pervades.expandDeep`, `unwrapOptional` — following aliases.
* `Analysis.Pervades.instantiate`, `memberInterface` — overloads of a definition.
* `Analysis.Pervades.interfaceFor` — the interface of any type.
* `Analysis.pervades_transparent` — transparency is such a property; the alias on the way is taken off
  again.
-/
import SignatureAlgebra.Analysis.Receiver
import SignatureAlgebra.Proofs.Analysis.Renaming

namespace SignatureAlgebra

namespace Analysis

/-- **A property of actions that pervades all answers**: putting actions together keeps it, and the
actions that look at the session have it. -/
structure Pervades (a : Analysis) (P : ∀ ⦃α : Type⦄, StateM Session α → Prop) : Prop where
  pure : ∀ {α : Type} (v : α), P (pure v)
  bind : ∀ {α β : Type} {x : StateM Session α} {f : α → StateM Session β},
    P x → (∀ v, P (f v)) → P (x >>= f)
  freshName : ∀ base : Name, P (Session.freshName base)
  toTy : ∀ id : NodeId, P (a.toTy id)
  params : ∀ p : DeclaredParams NodeId, P (a.params p)
  unfold : ∀ name : TypeName, P (a.unfold name).run
  ofReceivers : ∀ {α : Type} {f : List Ty → StateM Session α},
    (∀ ts, P (f ts)) → P fun s => f s.receivers s
  computing : ∀ {α : Type} (t : Ty) {action : AnalysisM α}, P action.run → P (computing t action).run

variable {a : Analysis}

namespace Pervades

variable {P : ∀ ⦃α : Type⦄, StateM Session α → Prop} {α β : Type}

/-! ### Putting actions together -/

theorem mapM (all : a.Pervades P) {f : α → StateM Session β} (values : List α)
    (each : ∀ v ∈ values, P (f v)) : P (values.mapM f) := by
  induction values with
  | nil => exact all.pure []
  | cons first rest ih =>
    rw [List.mapM_cons]
    refine all.bind (each first List.mem_cons_self) fun _ => ?_
    refine all.bind (ih fun v member => each v (List.mem_cons_of_mem _ member)) fun _ => ?_
    exact all.pure _

theorem ofExcept (all : a.Pervades P) (result : Except Error α) :
    P (liftM result : AnalysisM α).run := all.pure result

theorem throw (all : a.Pervades P) (e : Error) : P (MonadExcept.throw e : AnalysisM α).run :=
  all.pure _

theorem lift (all : a.Pervades P) {x : StateM Session α} (inner : P x) :
    P (liftM x : AnalysisM α).run := all.bind inner fun _ => all.pure _

theorem bindExcept (all : a.Pervades P) {x : AnalysisM α} {f : α → AnalysisM β} (first : P x.run)
    (next : ∀ v, P (f v).run) : P (x >>= f).run := by
  show P (x.run >>= ExceptT.bindCont f)
  refine all.bind first fun result => ?_
  cases result with
  | error e => exact all.pure _
  | ok v => exact next v

/-- A refusal in front of an action. -/
theorem guarded (all : a.Pervades P) {refused : Prop} [Decidable refused] {e : Error}
    {f : Unit → AnalysisM α} (otherwise : P (f ()).run) :
    P (if refused then MonadExcept.throw e >>= f else f ()).run := by
  by_cases holds : refused
  · rw [if_pos holds]
    exact all.bindExcept (all.throw e) fun _ => otherwise
  · rw [if_neg holds]
    exact otherwise

theorem mapMExcept (all : a.Pervades P) {f : α → AnalysisM β} (values : List α)
    (each : ∀ v ∈ values, P (f v).run) : P (values.mapM f).run := by
  induction values with
  | nil => exact all.pure _
  | cons first rest ih =>
    rw [List.mapM_cons]
    refine all.bindExcept (each first List.mem_cons_self) fun _ => ?_
    refine all.bindExcept (ih fun v member => each v (List.mem_cons_of_mem _ member)) fun _ => ?_
    exact all.pure _

/-! ### Following aliases -/

theorem expandOne (all : a.Pervades P) (t : Ty) : P (a.expandOne t).run := by
  unfold Analysis.expandOne
  split
  · exact all.unfold _
  · exact all.pure _

theorem expandLayer (all : a.Pervades P) {follow : List Ty → Ty → AnalysisM Ty} (path : List Ty)
    (next : ∀ path t, P (follow path t).run) (t : Ty) (results : Shape (AnalysisM Ty))
    (each : ∀ r ∈ results.toList, P r.run) : P (a.expandLayer follow path t results).run := by
  unfold Analysis.expandLayer
  split
  · exact all.guarded (all.bindExcept (all.unfold _) (next _))
  · exact all.bindExcept (all.mapMExcept _ each) fun _ => all.pure _
  · exact all.pure _

theorem expandWithin (all : a.Pervades P) (bound : Nat) (path : List Ty) (t : Ty) :
    P (a.expandWithin bound path t).run := by
  -- The bound counts aliases in a row; between two of them the recursion is on the type.
  induction bound generalizing path t with
  | zero => exact t.recurse_induction (all.expandLayer path fun _ _ => all.throw _)
  | succ bound ih => exact t.recurse_induction (all.expandLayer path ih)

theorem expandDeep (all : a.Pervades P) (t : Ty) : P (a.expandDeep t).run := all.expandWithin _ _ t

theorem followWithin (all : a.Pervades P) (bound : Nat) (path : List Ty) (t : Ty) :
    P (a.followWithin bound path t).run := by
  induction bound generalizing path t with
  | zero =>
    unfold Analysis.followWithin
    split
    · exact all.guarded (all.bindExcept (all.unfold _) fun _ => all.throw _)
    · exact all.pure _
  | succ bound ih =>
    unfold Analysis.followWithin
    split
    · exact all.guarded (all.bindExcept (all.unfold _) (ih _))
    · exact all.pure _

theorem unwrapOptional (all : a.Pervades P) (t : Ty) : P (a.unwrapOptional t).run := by
  refine all.bindExcept (all.followWithin _ _ t) fun t => ?_
  split
  · exact all.pure _
  · exact all.pure _

/-! ### Overloads -/

theorem renameTaken (all : a.Pervades P) (taken vars : List Name) (clashes : Substitution) :
    P (Session.renameTaken taken vars clashes) := by
  induction vars generalizing clashes with
  | nil => exact all.pure _
  | cons name rest ih =>
    unfold Session.renameTaken
    by_cases clash : name ∈ taken
    · rw [if_pos clash]
      refine all.bind (all.freshName name) fun fresh => ?_
      exact all.bind (ih _) fun _ => all.pure _
    · rw [if_neg clash]
      exact all.bind (ih _) fun _ => all.pure _

theorem instantiate (all : a.Pervades P) (signature : DeclaredMethod NodeId) (selfType : Ty)
    (substitution : Option Substitution) (origin : Option Origin) :
    P (a.instantiate signature selfType substitution origin) := by
  refine all.bind (all.renameTaken _ _ _) fun renamed => ?_
  refine all.bind (all.params _) fun params => ?_
  refine all.bind (all.toTy _) fun result => ?_
  cases signature.block with
  | none => exact all.pure _
  | some block =>
    refine all.bind (all.params _) fun params => ?_
    exact all.bind (all.toTy _) fun result => all.pure _

theorem memberOverloads (all : a.Pervades P) (s : Substitution) (selfType : Ty) (member : Member) :
    P (a.memberOverloads s selfType member) :=
  all.mapM _ fun _ _ => all.bind (all.instantiate _ _ _ _) fun _ => all.pure _

theorem membersFrom (all : a.Pervades P) (s : Substitution) (selfType : Ty) (members : List Member)
    (i : Interface) : P (a.membersFrom s selfType members i) := by
  induction members generalizing i with
  | nil => exact all.pure i
  | cons member rest ih => exact all.bind (all.memberOverloads s selfType member) fun _ => ih _

theorem memberInterface (all : a.Pervades P) (definition : Definition) (s : Substitution)
    (includePrivate : Bool) (selfType : Ty) :
    P (a.memberInterface definition s includePrivate selfType) := all.membersFrom s selfType _ _

/-! ### Named types and structures -/

theorem instanceInterface (all : a.Pervades P) (name : TypeName) (args : List Ty)
    (includePrivate : Bool) (selfType : Ty) :
    P (a.instanceInterface name args includePrivate selfType).run := by
  refine all.bindExcept (all.ofExcept _) fun definition => ?_
  refine all.bindExcept (all.ofExcept _) fun s => ?_
  exact all.lift (all.memberInterface _ _ _ _)

theorem interfaceInterface (all : a.Pervades P) (name : TypeName) (args : List Ty)
    (includePrivate : Bool) (selfType : Ty) :
    P (a.interfaceInterface name args includePrivate selfType).run := by
  refine all.bindExcept (all.ofExcept _) fun definition => ?_
  refine all.bindExcept (all.ofExcept _) fun s => ?_
  exact all.lift (all.memberInterface _ _ _ _)

theorem singletonInterface (all : a.Pervades P) (name : TypeName) (includePrivate : Bool)
    (selfType : Ty) : P (a.singletonInterface name includePrivate selfType).run := by
  refine all.bindExcept (all.ofExcept _) fun definition => ?_
  exact all.lift (all.memberInterface _ _ _ _)

theorem booleanInterface (all : a.Pervades P) (includePrivate : Bool) (selfType : Ty) :
    P (a.booleanInterface includePrivate selfType).run := by
  refine all.bindExcept (all.mapMExcept _ fun name _ => ?_) fun _ => all.pure _
  exact all.instanceInterface name [] includePrivate selfType

theorem tupleInterface (all : a.Pervades P) (members : List Ty) (includePrivate : Bool)
    (selfType : Ty) : P (a.tupleInterface members includePrivate selfType).run :=
  all.bindExcept (all.instanceInterface _ _ _ _) fun _ => all.pure _

theorem recordInterface (all : a.Pervades P) (fields : List (Literal × Ty)) (includePrivate : Bool)
    (selfType : Ty) : P (a.recordInterface fields includePrivate selfType).run :=
  all.bindExcept (all.instanceInterface _ _ _ _) fun _ => all.pure _

theorem procInterface (all : a.Pervades P) (params : Params Ty) (result : Ty)
    (includePrivate : Bool) (selfType : Ty) :
    P (a.procInterface params result includePrivate selfType).run :=
  all.bindExcept (all.instanceInterface _ _ _ _) fun _ => all.pure _

/-! ### Any type -/

theorem receiverLayer (all : a.Pervades P) {follow : Ty → Ty → AnalysisM Interface}
    (includePrivate : Bool) (next : ∀ selfType t, P (follow selfType t).run) (selfType t : Ty)
    (results : Shape (AnalysisM Interface)) (each : ∀ r ∈ results.toList, P r.run) :
    P (a.receiverLayer includePrivate follow selfType t results).run := by
  unfold Analysis.receiverLayer
  split
  · have layer : ∀ receivers : List Ty, P (do
        if t ∈ receivers then MonadExcept.throw (.recursiveAlias t)
        let expanded ← a.expandDeep t
        Analysis.computing t (follow selfType expanded) : AnalysisM Interface).run := fun receivers =>
      all.guarded (all.bindExcept (all.expandDeep t) fun _ => all.computing t (next _ _))
    exact all.ofReceivers layer
  · by_cases placeholder : selfType = .selfType
    · rw [if_pos placeholder]
      exact all.throw _
    · rw [if_neg placeholder]
      exact next _ _
  · exact all.bindExcept (all.mapMExcept _ each) fun _ => all.pure _
  · exact all.bindExcept (all.mapMExcept _ each) fun _ => all.pure _
  · split
    · exact all.instanceInterface _ _ _ _
    · exact all.interfaceInterface _ _ _ _
    · exact all.singletonInterface _ _ _
    · exact all.instanceInterface _ _ _ _
    · exact all.instanceInterface _ _ _ _
    · exact all.booleanInterface _ _
    · exact all.booleanInterface _ _
    · exact all.tupleInterface _ _ _
    · exact all.recordInterface _ _ _
    · exact all.procInterface _ _ _ _
    · exact all.throw _

theorem interfaceWithin (all : a.Pervades P) (includePrivate : Bool) (bound : Nat)
    (selfType t : Ty) : P (a.interfaceWithin includePrivate bound selfType t).run := by
  induction bound generalizing selfType t with
  | zero =>
    exact t.recurse_induction (all.receiverLayer includePrivate (fun _ _ => all.throw _) selfType)
  | succ bound ih => exact t.recurse_induction (all.receiverLayer includePrivate ih selfType)

theorem interfaceFor (all : a.Pervades P) (t : Ty) (includePrivate : Bool) (selfType : Ty) :
    P (a.interfaceFor t includePrivate selfType).run :=
  all.interfaceWithin includePrivate _ selfType t

end Pervades

/-! ### Transparency -/

theorem transparent_freshName (a : Analysis) (base : Name) :
    a.Transparent (Session.freshName base) where
  grows := Session.grows_freshName base
  same _ s s' agree := by
    unfold Session.freshName
    rw [agree.names, agree.nextFresh]
    exact ⟨rfl, rfl, rfl, agree.receivers, ⟨agree.left.memo, agree.left.unfolded⟩,
      ⟨agree.right.memo, agree.right.unfolded⟩⟩

/-- **The alias on the way is taken off again**, also when what is computed on the way fails. -/
theorem transparent_computing {α : Type} (t : Ty) {action : AnalysisM α}
    (inner : a.Transparent action.run) : a.Transparent (computing t action).run where
  grows s := by
    have during := inner.grows { s with receivers := t :: s.receivers }
    refine ⟨during.texts, during.nextFresh, ?_⟩
    show (action { s with receivers := t :: s.receivers }).2.receivers.tail = s.receivers
    rw [show (action { s with receivers := t :: s.receivers }).2.receivers = t :: s.receivers from
      during.receivers]
    rfl
  same acyclic s s' agree := by
    have marked : Session.Agree a { s with receivers := t :: s.receivers }
        { s' with receivers := t :: s'.receivers } :=
      ⟨agree.names, agree.nextFresh, congrArg (t :: ·) agree.receivers,
        ⟨agree.left.memo, agree.left.unfolded⟩, ⟨agree.right.memo, agree.right.unfolded⟩⟩
    obtain ⟨value, after⟩ := inner.same acyclic _ _ marked
    exact ⟨value, after.names, after.nextFresh, congrArg List.tail after.receivers,
      ⟨after.left.memo, after.left.unfolded⟩, ⟨after.right.memo, after.right.unfolded⟩⟩

/-- **Every question is answered transparently.** -/
theorem pervades_transparent (a : Analysis) : a.Pervades fun _ action => a.Transparent action where
  pure := Transparent.pure
  bind := Transparent.bind
  freshName := transparent_freshName a
  toTy := transparent_toTy a
  params := transparent_params a
  unfold := transparent_unfold a
  ofReceivers := Transparent.ofReceivers
  computing := transparent_computing

end Analysis

end SignatureAlgebra
