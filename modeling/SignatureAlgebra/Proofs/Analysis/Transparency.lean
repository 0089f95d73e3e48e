/-
**Answers that do not depend on what is remembered.**

Two sessions with the same names, the same next fresh variable and the same aliases on the way differ
in what they remember only. As long as both remember nothing wrong, an action that is transparent
gives the same answer on both and leads to two such sessions again. Putting actions together keeps
transparency, so it is shown here for the actions that look at the session.

* `Session.Coherent` — what is remembered of nodes and aliases is right.
* `Session.Grows` — names are added, fresh variables are used up, the aliases on the way are as before.
* `Analysis.Transparent` — the property; `Transparent.bind` and `Transparent.ofReceivers` put it
  together.
* `Analysis.transparent_toTy`, `transparent_params`, `transparent_unfold` — the remembering actions.
-/
import SignatureAlgebra.Analysis.Alias
import SignatureAlgebra.Proofs.Conversion.Memo

namespace SignatureAlgebra

/-- The type that an alias stands for. -/
def Environment.aliasType (env : Environment) (name : TypeName) : Except Error Ty :=
  (env.aliasBody name).map env.arena.toTy

namespace Session

/-! ### Sessions side by side -/

/-- **What a session remembers is right.** -/
structure Coherent (a : Analysis) (s : Session) : Prop where
  memo : s.memo.Coherent a.env.arena
  unfolded : ∀ name body, s.unfolded.lookup name = some body → a.env.aliasType name = .ok body

/-- A session from which another one is reached. -/
structure Grows (s later : Session) : Prop where
  texts : s.names.texts <+: later.names.texts
  nextFresh : s.nextFresh ≤ later.nextFresh
  receivers : later.receivers = s.receivers

/-- Two sessions that differ in what they remember only, both of them coherent. -/
structure Agree (a : Analysis) (s s' : Session) : Prop where
  names : s.names = s'.names
  nextFresh : s.nextFresh = s'.nextFresh
  receivers : s.receivers = s'.receivers
  left : s.Coherent a
  right : s'.Coherent a

variable {a : Analysis}

theorem coherent_start (a : Analysis) (names : Interner) (nextFresh : Nat) :
    (start names nextFresh).Coherent a := ⟨Memo.coherent_empty _, nofun⟩

theorem Grows.refl (s : Session) : s.Grows s := ⟨List.prefix_rfl, Nat.le_refl _, rfl⟩

theorem Grows.trans {s t u : Session} (first : s.Grows t) (second : t.Grows u) : s.Grows u where
  texts := first.texts.trans second.texts
  nextFresh := Nat.le_trans first.nextFresh second.nextFresh
  receivers := second.receivers.trans first.receivers

/-- A session agrees with the one that forgot everything, while no alias is on the way. -/
theorem agree_forget {s : Session} (coherent : s.Coherent a) (idle : s.receivers = []) :
    Agree a s s.forget := ⟨rfl, rfl, idle, coherent, coherent_start a _ _⟩

end Session

namespace Analysis

/-- **An action whose answer does not depend on what is remembered**, on an arena without cycles. -/
structure Transparent (a : Analysis) {α : Type} (action : StateM Session α) : Prop where
  grows : ∀ s : Session, s.Grows (action s).2
  same : a.env.arena.Acyclic → ∀ s s' : Session, Session.Agree a s s' →
    (action s).1 = (action s').1 ∧ Session.Agree a (action s).2 (action s').2

variable {a : Analysis} {α β : Type}

/-! ### Putting actions together -/

namespace Transparent

theorem pure (v : α) : a.Transparent (pure v) where
  grows := Session.Grows.refl
  same _ _ _ agree := ⟨rfl, agree⟩

theorem bind {x : StateM Session α} {f : α → StateM Session β} (first : a.Transparent x)
    (next : ∀ v, a.Transparent (f v)) : a.Transparent (x >>= f) where
  grows s := (first.grows s).trans ((next (x s).1).grows (x s).2)
  same acyclic s s' agree := by
    obtain ⟨value, agree'⟩ := first.same acyclic s s' agree
    have after := (next (x s).1).same acyclic (x s).2 (x s').2 agree'
    show (f (x s).1 (x s).2).1 = (f (x s').1 (x s').2).1 ∧
      Session.Agree a (f (x s).1 (x s).2).2 (f (x s').1 (x s').2).2
    rw [← value]
    exact after

/-- What an action reads of the aliases on the way, it reads in both sessions. -/
theorem ofReceivers {f : List Ty → StateM Session α} (each : ∀ ts, a.Transparent (f ts)) :
    a.Transparent fun s => f s.receivers s where
  grows s := (each s.receivers).grows s
  same acyclic s s' agree := by
    have agreed := (each s.receivers).same acyclic s s' agree
    rw [← agree.receivers]
    exact agreed

/-- An action that changes what is remembered only, and has one answer. -/
theorem ofYields {x : StateM Session α} {v : α}
    (quiet : ∀ s, (x s).2.names = s.names ∧ (x s).2.nextFresh = s.nextFresh ∧
      (x s).2.receivers = s.receivers)
    (yields : a.env.arena.Acyclic → Yields (Session.Coherent a) x v) : a.Transparent x where
  grows s := by
    obtain ⟨names, nextFresh, receivers⟩ := quiet s
    exact ⟨names ▸ List.prefix_rfl, Nat.le_of_eq nextFresh.symm, receivers⟩
  same acyclic s s' agree := by
    obtain ⟨names, nextFresh, receivers⟩ := quiet s
    obtain ⟨names', nextFresh', receivers'⟩ := quiet s'
    obtain ⟨value, left⟩ := yields acyclic s agree.left
    obtain ⟨value', right⟩ := yields acyclic s' agree.right
    refine ⟨value.trans value'.symm, ?_, ?_, ?_, left, right⟩
    · rw [names, names', agree.names]
    · rw [nextFresh, nextFresh', agree.nextFresh]
    · rw [receivers, receivers', agree.receivers]

end Transparent

end Analysis

/-- What holds of a step's result whenever it holds at the places of the layer holds of every
recursion. -/
theorem Ty.recurse_induction {α : Type} {P : α → Prop} {step : Ty → Shape α → α}
    (each : ∀ t results, (∀ r ∈ results.toList, P r) → P (step t results)) (t : Ty) :
    P (t.recurse step) := by
  induction t using Ty.induction with
  | step t ih =>
    obtain ⟨s⟩ := t
    rw [recurse_node]
    refine each _ _ fun r member => ?_
    rw [Shape.toList_map] at member
    obtain ⟨u, isChild, rfl⟩ := List.mem_map.1 member
    exact ih u isChild

namespace Analysis

variable {a : Analysis}

/-! ### Remembering -/

/-- Finding the types of nodes keeps a session coherent, and all but the memo as it is. -/
theorem yields_remembering {α : Type} {action : StateM Memo α} {v : α}
    (yields : Yields (Memo.Coherent a.env.arena) action v) :
    Yields (Session.Coherent a) (Session.remembering action) v := by
  intro s coherent
  obtain ⟨value, memo⟩ := yields s.memo coherent.memo
  exact ⟨value, memo, coherent.unfolded⟩

/-- **The type of a node**, whatever is remembered. -/
theorem toTy_yields (acyclic : a.env.arena.Acyclic) (id : NodeId) :
    Yields (Session.Coherent a) (a.toTy id) (a.env.arena.toTy id) :=
  yields_remembering (Memo.toTy_yields acyclic id)

theorem params_yields (acyclic : a.env.arena.Acyclic) (p : DeclaredParams NodeId) :
    Yields (Session.Coherent a) (a.params p) (p.map a.env.arena.toTy).toParams :=
  yields_remembering (Memo.params_yields acyclic p)

theorem transparent_toTy (a : Analysis) (id : NodeId) : a.Transparent (a.toTy id) :=
  .ofYields (fun _ => ⟨rfl, rfl, rfl⟩) fun acyclic => toTy_yields acyclic id

theorem transparent_params (a : Analysis) (p : DeclaredParams NodeId) : a.Transparent (a.params p) :=
  .ofYields (fun _ => ⟨rfl, rfl, rfl⟩) fun acyclic => params_yields acyclic p

/-- What unfolding an alias does to a session. -/
theorem unfold_run (a : Analysis) (name : TypeName) (s : Session) :
    a.unfold name s =
      match s.unfolded.lookup name with
      | some body => (.ok body, s)
      | none =>
        match a.env.aliasBody name with
        | .error e => (.error e, s)
        | .ok id =>
          let body := a.toTy id s
          (.ok body.1, { body.2 with unfolded := (name, body.1) :: body.2.unfolded }) := by
  have read : a.unfold name s =
      (match s.unfolded.lookup name with
      | some body => pure body
      | none => do
        let id ← a.env.aliasBody name
        let body ← a.toTy id
        modify fun s => { s with unfolded := (name, body) :: s.unfolded }
        return body : AnalysisM Ty) s := rfl
  rw [read]
  cases s.unfolded.lookup name with
  | some body => rfl
  | none =>
    cases a.env.aliasBody name with
    | error e => rfl
    | ok id => rfl

/-- **The body of an alias** is the type of its declared body, whatever is remembered. -/
theorem unfold_yields (acyclic : a.env.arena.Acyclic) (name : TypeName) :
    Yields (Session.Coherent a) (a.unfold name).run (a.env.aliasType name) := by
  intro s coherent
  show (a.unfold name s).1 = _ ∧ (a.unfold name s).2.Coherent a
  rw [unfold_run]
  cases found : s.unfolded.lookup name with
  | some body => exact ⟨(coherent.unfolded name body found).symm, coherent⟩
  | none =>
    unfold Environment.aliasType
    cases declared : a.env.aliasBody name with
    | error e => exact ⟨rfl, coherent⟩
    | ok id =>
      obtain ⟨value, coherent'⟩ := toTy_yields acyclic id s coherent
      -- The new entry is right by `value`; the old ones are still there and were right before.
      refine ⟨congrArg Except.ok value, coherent'.memo, fun name' body found' => ?_⟩
      rw [List.lookup_cons] at found'
      by_cases same : name' = name
      · subst same
        have now : (a.toTy id s).1 = body := by simpa using found'
        rw [Environment.aliasType, declared, ← now, value]
        rfl
      · have other : (name' == name) = false := by simpa using same
        rw [other] at found'
        exact coherent'.unfolded name' body found'

theorem transparent_unfold (a : Analysis) (name : TypeName) :
    a.Transparent (a.unfold name).run := by
  refine .ofYields (fun s => ?_) fun acyclic => unfold_yields acyclic name
  show (a.unfold name s).2.names = _ ∧ (a.unfold name s).2.nextFresh = _ ∧
    (a.unfold name s).2.receivers = _
  rw [unfold_run]
  cases s.unfolded.lookup name with
  | some body => exact ⟨rfl, rfl, rfl⟩
  | none =>
    cases a.env.aliasBody name with
    | error e => exact ⟨rfl, rfl, rfl⟩
    | ok id => exact ⟨rfl, rfl, rfl⟩

end Analysis

end SignatureAlgebra
