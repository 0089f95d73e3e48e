/-
**Two actions side by side.**

Some properties are about two answers at once: those to two questions, each on a session of its own. Two
actions are in lockstep if, from any states of their kinds, both are refused for related reasons or both give
results that are related. Actions that are put together in the same way from actions in lockstep are in
lockstep. Where the reasons do not matter, the actions are called parallel.

* `Outcomes`, `Lockstep`, `Parallel` — the relation; `Lockstep.bind`, `Lockstep.guarded`, `Lockstep.mapM` —
  its rules.
* `Analysis.lockstep_computing`, `lockstep_receiverLayer_alias`, `lockstep_receiverLayer_self` — with
  different aliases on the way on either side.
* `Analysis.parallel_expandDeep` — the arguments of an alias do not matter for what it is expanded to.
-/
import SignatureAlgebra.Proofs.Analysis.Expanding

namespace SignatureAlgebra

variable {α β γ δ ι σ : Type}

/-- Two results are both given and related, or both refused for related reasons. -/
def Outcomes (given : α → β → Prop) (refused : Error → Error → Prop) :
    Except Error α → Except Error β → Prop
  | .ok v, .ok w => given v w
  | .error e, .error e' => refused e e'
  | _, _ => False

theorem Outcomes.isOk_iff {given : α → β → Prop} {refused : Error → Error → Prop} {x : Except Error α}
    {y : Except Error β} (outcomes : Outcomes given refused x y) : (∃ v, x = .ok v) ↔ ∃ w, y = .ok w := by
  match x, y, outcomes with
  | .ok v, .ok w, _ => exact ⟨fun _ => ⟨w, rfl⟩, fun _ => ⟨v, rfl⟩⟩
  | .error _, .error _, _ => exact ⟨nofun, nofun⟩

/-- Both are refused for one reason, if for any. -/
theorem Outcomes.error_iff {given : α → β → Prop} {x : Except Error α} {y : Except Error β}
    (outcomes : Outcomes given Eq x y) (e : Error) : x = .error e ↔ y = .error e := by
  match x, y, outcomes with
  | .ok _, .ok _, _ => exact ⟨nofun, nofun⟩
  | .error reason, .error _, same =>
    obtain rfl : reason = _ := same
    exact ⟨fun same => congrArg _ (Except.error.inj same), fun same => congrArg _ (Except.error.inj same)⟩

theorem Outcomes.self {refused : Error → Error → Prop} (same : ∀ e, refused e e) (x : Except Error α) :
    Outcomes (fun v w => v = w ∧ x = .ok v) refused x x := by
  cases x with
  | ok v => exact ⟨rfl, rfl⟩
  | error e => exact same e

/-- **Two actions go in lockstep**: from any states of their kinds both are refused for related reasons, or
both give related results, and each leads to a state of its kind. -/
def Lockstep (kind kind' : σ → Prop) (x : ExceptT Error (StateM σ) α) (y : ExceptT Error (StateM σ) β)
    (given : α → β → Prop) (refused : Error → Error → Prop) : Prop :=
  ∀ s s', kind s → kind' s' →
    Outcomes given refused (x.run s).1 (y.run s').1 ∧ kind (x.run s).2 ∧ kind' (y.run s').2

/-- Two actions in lockstep, whatever they are refused for. -/
abbrev Parallel (kind kind' : σ → Prop) (x : ExceptT Error (StateM σ) α) (y : ExceptT Error (StateM σ) β)
    (given : α → β → Prop) : Prop := Lockstep kind kind' x y given fun _ _ => True

namespace Lockstep

variable {kind kind' : σ → Prop} {given given' : α → β → Prop} {refused : Error → Error → Prop}
  {x : ExceptT Error (StateM σ) α} {y : ExceptT Error (StateM σ) β}

theorem pure {v : α} {w : β} (related : given v w) :
    Lockstep kind kind' (pure v) (pure w) given refused := fun _ _ start start' => ⟨related, start, start'⟩

theorem throw {e e' : Error} (related : refused e e') :
    Lockstep kind kind' (throw e : ExceptT Error (StateM σ) α) (throw e') given refused :=
  fun _ _ start start' => ⟨related, start, start'⟩

theorem ofExcept {x : Except Error α} {y : Except Error β} (outcomes : Outcomes given refused x y) :
    Lockstep kind kind' (liftM x) (liftM y) given refused :=
  fun _ _ start start' => ⟨outcomes, start, start'⟩

/-- Actions that are not refused. -/
theorem lift {x : StateM σ α} {y : StateM σ β}
    (each : ∀ s s', kind s → kind' s' → given (x s).1 (y s').1 ∧ kind (x s).2 ∧ kind' (y s').2) :
    Lockstep kind kind' (liftM x) (liftM y) given refused := each

/-- Actions with one result, the same on both sides. -/
theorem ofYields (same : ∀ e, refused e e) {x : ExceptT Error (StateM σ) α} {result : Except Error α}
    (yields : Yields kind x.run result) (yields' : Yields kind' x.run result) :
    Lockstep kind kind' x x (fun v w => v = w ∧ result = .ok v) refused := by
  intro s s' start start'
  obtain ⟨value, after⟩ := yields s start
  obtain ⟨value', after'⟩ := yields' s' start'
  rw [value, value']
  exact ⟨Outcomes.self same result, after, after'⟩

theorem imp (lockstep : Lockstep kind kind' x y given refused)
    (weaker : ∀ v w, given v w → given' v w) : Lockstep kind kind' x y given' refused := by
  intro s s' start start'
  obtain ⟨outcomes, after⟩ := lockstep s s' start start'
  refine ⟨?_, after⟩
  match (x.run s).1, (y.run s').1, outcomes with
  | .ok v, .ok w, related => exact weaker v w related
  | .error _, .error _, related => exact related

/-- What is known of the results of the first action alone. -/
theorem and_ends {known : α → Prop} {unknown : Error → Prop}
    (lockstep : Lockstep kind kind' x y given refused) (ends : Ends kind x known unknown) :
    Lockstep kind kind' x y (fun v w => given v w ∧ known v) refused := by
  intro s s' start start'
  obtain ⟨outcomes, after⟩ := lockstep s s' start start'
  obtain ⟨outcome, _⟩ := ends s start
  refine ⟨?_, after⟩
  match (x.run s).1, (y.run s').1, outcomes, outcome with
  | .ok v, .ok w, related, holds => exact ⟨related, holds⟩
  | .error _, .error _, related, _ => exact related

theorem congr {x' : ExceptT Error (StateM σ) α} {y' : ExceptT Error (StateM σ) β}
    (same : SameOn kind x x') (same' : SameOn kind' y y')
    (lockstep : Lockstep kind kind' x' y' given refused) : Lockstep kind kind' x y given refused := by
  intro s s' start start'
  rw [same s start, same' s' start']
  exact lockstep s s' start start'

theorem bind {f : α → ExceptT Error (StateM σ) γ} {g : β → ExceptT Error (StateM σ) δ}
    {given' : γ → δ → Prop} (first : Lockstep kind kind' x y given refused)
    (next : ∀ v w, given v w → Lockstep kind kind' (f v) (g w) given' refused) :
    Lockstep kind kind' (x >>= f) (y >>= g) given' refused := by
  intro s s' start start'
  obtain ⟨outcomes, after, after'⟩ := first s s' start start'
  show Outcomes given' refused (ExceptT.bindCont f (x.run s).1 (x.run s).2).1
      (ExceptT.bindCont g (y.run s').1 (y.run s').2).1 ∧
    kind (ExceptT.bindCont f (x.run s).1 (x.run s).2).2 ∧
    kind' (ExceptT.bindCont g (y.run s').1 (y.run s').2).2
  match (x.run s).1, (y.run s').1, outcomes with
  | .ok v, .ok w, related => exact next v w related _ _ after after'
  | .error _, .error _, related => exact ⟨related, after, after'⟩

/-- Refusals in front of two actions. -/
theorem guarded {forbidden forbidden' : Prop} [Decidable forbidden] [Decidable forbidden'] {e e' : Error}
    {f : Unit → ExceptT Error (StateM σ) α} {g : Unit → ExceptT Error (StateM σ) β}
    (same : forbidden ↔ forbidden') (related : refused e e')
    (otherwise : ¬ forbidden → Lockstep kind kind' (f ()) (g ()) given refused) :
    Lockstep kind kind' (if forbidden then MonadExcept.throw e >>= f else f ())
      (if forbidden' then MonadExcept.throw e' >>= g else g ()) given refused := by
  by_cases holds : forbidden
  · rw [if_pos holds, if_pos (same.1 holds)]
    have refusals : Lockstep kind kind' (MonadExcept.throw e : ExceptT Error (StateM σ) PUnit)
        (MonadExcept.throw e' : ExceptT Error (StateM σ) PUnit) (fun _ _ => False) refused := throw related
    exact refusals.bind nofun
  · rw [if_neg holds, if_neg fun holds' => holds (same.2 holds')]
    exact otherwise holds

/-- Two lists of actions for the same values; each pair of results is related for its own value. -/
theorem mapM {f : ι → ExceptT Error (StateM σ) α} {g : ι → ExceptT Error (StateM σ) β}
    {given : ι → α → β → Prop} (values : List ι)
    (each : ∀ u ∈ values, Lockstep kind kind' (f u) (g u) (given u) refused) :
    Lockstep kind kind' (values.mapM f) (values.mapM g) (fun vs ws =>
      ∃ pairs : List (α × β), vs = pairs.map Prod.fst ∧ ws = pairs.map Prod.snd ∧
        List.Forall₂ (fun u pair => given u pair.1 pair.2) values pairs) refused := by
  induction values with
  | nil => exact pure ⟨[], rfl, rfl, .nil⟩
  | cons first rest ih =>
    rw [List.mapM_cons, List.mapM_cons]
    refine (each first List.mem_cons_self).bind fun v w related => ?_
    refine (ih fun u member => each u (List.mem_cons_of_mem _ member)).bind fun vs ws known => ?_
    obtain ⟨pairs, rfl, rfl, all⟩ := known
    exact pure ⟨(v, w) :: pairs, rfl, rfl, .cons related all⟩

/-- Two lists of actions for the same values, with results that are all related in one way. -/
theorem mapM_forall₂ {f : ι → ExceptT Error (StateM σ) α} {g : ι → ExceptT Error (StateM σ) β}
    (values : List ι) (each : ∀ u ∈ values, Lockstep kind kind' (f u) (g u) given refused) :
    Lockstep kind kind' (values.mapM f) (values.mapM g) (List.Forall₂ given) refused := by
  refine (mapM values each).imp fun vs ws known => ?_
  obtain ⟨pairs, rfl, rfl, all⟩ := known
  refine List.forall₂_map_left_iff.2 (List.forall₂_map_right_iff.2 (List.forall₂_same.2 ?_))
  intro pair isPair
  obtain ⟨_, _, related⟩ := exists_left_of_forall₂ all isPair
  exact related

end Lockstep

namespace Analysis

variable {a : Analysis} {receivers receivers' : List Ty}

/-! ### Aliases on the way -/

/-- **One more alias on the way** on either side, while two actions go on. -/
theorem lockstep_computing {x : AnalysisM α} {y : AnalysisM β} {given : α → β → Prop}
    {refused : Error → Error → Prop} {t t' : Ty}
    (inner : Lockstep (Session.OnWay a (t :: receivers)) (Session.OnWay a (t' :: receivers')) x y given
      refused) :
    Lockstep (Session.OnWay a receivers) (Session.OnWay a receivers') (computing t x) (computing t' y)
      given refused := by
  intro s s' start start'
  obtain ⟨outcomes, after, after'⟩ := inner _ _ (onWay_cons start t) (onWay_cons start' t')
  refine ⟨outcomes, ⟨⟨after.coherent.memo, after.coherent.unfolded⟩, ?_⟩,
    ⟨⟨after'.coherent.memo, after'.coherent.unfolded⟩, ?_⟩⟩
  · exact congrArg List.tail after.receivers
  · exact congrArg List.tail after'.receivers

variable {includePrivate includePrivate' : Bool} {follow follow' : Ty → Ty → AnalysisM Interface}
  {selfType selfType' : Ty} {given : Interface → Interface → Prop} {refused : Error → Error → Prop}

/-- The word `self` on both sides. -/
theorem lockstep_receiverLayer_self {kind kind' : Session → Prop} {t t' : Ty}
    (unknown : selfType = .selfType ↔ selfType' = .selfType)
    (related : refused .selfWithoutReceiver .selfWithoutReceiver)
    (follows : selfType ≠ .selfType →
      Lockstep kind kind' (follow .selfType selfType) (follow' .selfType selfType') given refused) :
    Lockstep kind kind' (a.receiverLayer includePrivate follow selfType t (.placeholder .selfType))
      (a.receiverLayer includePrivate' follow' selfType' t' (.placeholder .selfType)) given refused := by
  show Lockstep kind kind'
    (if selfType = .selfType then throw .selfWithoutReceiver else follow .selfType selfType)
    (if selfType' = .selfType then throw .selfWithoutReceiver else follow' .selfType selfType') given refused
  by_cases word : selfType = .selfType
  · rw [if_pos word, if_pos (unknown.1 word)]
    exact Lockstep.throw related
  · rw [if_neg word, if_neg fun word' => word (unknown.2 word')]
    exact follows word

/-- An alias on both sides, where the aliases on the way are known. -/
theorem lockstep_receiverLayer_alias {name : TypeName} {args args' : List Ty}
    {results results' : List (AnalysisM Interface)} {expanded : Ty → Ty → Prop}
    (again : .aliasOf name args ∈ receivers ↔ .aliasOf name args' ∈ receivers')
    (related : refused (.recursiveAlias (.aliasOf name args)) (.recursiveAlias (.aliasOf name args')))
    (expands : Lockstep (Session.OnWay a receivers) (Session.OnWay a receivers')
      (a.expandDeep (.aliasOf name args)) (a.expandDeep (.aliasOf name args')) expanded refused)
    (follows : ∀ t t', expanded t t' →
      Lockstep (Session.OnWay a (.aliasOf name args :: receivers))
        (Session.OnWay a (.aliasOf name args' :: receivers')) (follow selfType t) (follow' selfType' t')
        given refused) :
    Lockstep (Session.OnWay a receivers) (Session.OnWay a receivers')
      (a.receiverLayer includePrivate follow selfType (.aliasOf name args)
        (.applied .ofAlias name results))
      (a.receiverLayer includePrivate' follow' selfType' (.aliasOf name args')
        (.applied .ofAlias name results')) given refused := by
  intro s s' start start'
  have layer : Lockstep (Session.OnWay a receivers) (Session.OnWay a receivers') (do
      if .aliasOf name args ∈ receivers then throw (.recursiveAlias (.aliasOf name args))
      let t ← a.expandDeep (.aliasOf name args)
      computing (.aliasOf name args) (follow selfType t) : AnalysisM Interface) (do
      if .aliasOf name args' ∈ receivers' then throw (.recursiveAlias (.aliasOf name args'))
      let t ← a.expandDeep (.aliasOf name args')
      computing (.aliasOf name args') (follow' selfType' t) : AnalysisM Interface) given refused := by
    refine Lockstep.guarded again related fun _ => ?_
    exact expands.bind fun t t' isExpanded => lockstep_computing (follows t t' isExpanded)
  have run := layer s s' start start'
  rw [← start.receivers, ← start'.receivers] at run
  rw [← start.receivers, ← start'.receivers]
  exact run

/-! ### Following aliases -/

theorem parallel_unfold (acyclic : a.env.arena.Acyclic) (name : TypeName) :
    Parallel (Session.OnWay a receivers) (Session.OnWay a receivers') (a.unfold name) (a.unfold name)
      fun body body' => body = body' ∧ a.env.aliasType name = .ok body :=
  Lockstep.ofYields (fun _ => trivial) (onWay_unfold acyclic name) (onWay_unfold acyclic name)

/-- A type as it can be declared is expanded to the same, whatever the arguments of the aliases on the
way are. -/
theorem parallel_expandTo (acyclic : a.env.arena.Acyclic) (depth : Nat) {path path' : List Ty}
    (same : ∀ name, .aliasOf name [] ∈ path ↔ .aliasOf name [] ∈ path') {t : Ty}
    (declarable : t.IsDeclarable) :
    Parallel (Session.OnWay a receivers) (Session.OnWay a receivers') (a.expandTo refusing depth path t)
      (a.expandTo refusing depth path' t) Eq := by
  induction depth generalizing path path' t with
  | zero => exact Lockstep.throw trivial
  | succ depth ih =>
    induction t using Ty.induction with
    | step t ih' =>
      obtain ⟨s⟩ := t
      show Parallel _ _ (Ty.recurse (a.expandLayer (a.expandTo refusing depth) path) ⟨s⟩)
        (Ty.recurse (a.expandLayer (a.expandTo refusing depth) path') ⟨s⟩) _
      rw [Ty.recurse_node, Ty.recurse_node]
      cases s with
      | applied head name args =>
        cases head with
        | ofAlias =>
          obtain rfl : args = [] := declarable.self
          refine Lockstep.guarded (same name) trivial fun _ => ?_
          refine (parallel_unfold acyclic name).bind fun body _ ⟨rfl, declared⟩ => ?_
          refine ih (fun name' => ?_) (isDeclarable_aliasType declared)
          rw [List.mem_cons, List.mem_cons, same name']
        | _ => exact Lockstep.pure rfl
      | compound connective members =>
        cases connective with
        | union =>
          have each : Parallel (Session.OnWay a receivers) (Session.OnWay a receivers')
              (members.mapM (a.expandTo refusing (depth + 1) path))
              (members.mapM (a.expandTo refusing (depth + 1) path')) (List.Forall₂ Eq) :=
            Lockstep.mapM_forall₂ members fun u isMember =>
              ih' u isMember (declarable.of_mem_children isMember)
          show Parallel _ _ ((members.map _).mapM id >>= _) ((members.map _).mapM id >>= _) _
          rw [List.mapM_map, List.mapM_map]
          refine each.bind fun es es' pairs => ?_
          rw [List.forall₂_eq_eq_eq] at pairs
          exact Lockstep.pure (congrArg Ty.union pairs)
        | intersection => exact Lockstep.pure rfl
      | _ => exact Lockstep.pure rfl

/-- **The arguments of an alias do not matter** for what it is expanded to, apart from whether it has
any. -/
theorem parallel_expandDeep (acyclic : a.env.arena.Acyclic) (name : TypeName) {args args' : List Ty}
    (some : args = [] ↔ args' = []) :
    Parallel (Session.OnWay a receivers) (Session.OnWay a receivers') (a.expandDeep (.aliasOf name args))
      (a.expandDeep (.aliasOf name args')) Eq := by
  refine Lockstep.congr (expandDeep_same acyclic refusing (Nat.lt_succ_self _) _).symm
    (expandDeep_same acyclic refusing (Nat.lt_succ_self _) _).symm ?_
  show Parallel _ _
    (Ty.recurse (a.expandLayer (a.expandTo refusing a.env.aliasBound) []) (.aliasOf name args))
    (Ty.recurse (a.expandLayer (a.expandTo refusing a.env.aliasBound) []) (.aliasOf name args')) _
  rw [Ty.recurse_node, Ty.recurse_node]
  refine Lockstep.guarded ⟨nofun, nofun⟩ trivial fun _ => ?_
  refine (parallel_unfold acyclic name).bind fun body _ ⟨rfl, declared⟩ => ?_
  refine parallel_expandTo acyclic _ (fun name' => ?_) (isDeclarable_aliasType declared)
  simp only [List.mem_singleton, Ty.node.injEq, Shape.applied.injEq, true_and, eq_comm, some]

end Analysis

end SignatureAlgebra
