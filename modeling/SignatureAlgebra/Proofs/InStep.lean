/-
**Actions that run in step.**

Two actions run in step if they do the same, and what they give together is related. So a statement on
what one action gives can be read off another that is simpler, and whatever the first does to a state, the
second does.

* `InStep` — the relation; `InStep.bind`, `InStep.imp`, `InStep.map_left`.
* `InStep.state_iff`, `InStep.of_except` — what it says of actions on a state, which may fail.
* `InStep.items` — going through items is going through what they hold.
-/
import Mathlib.Tactic.Choose

namespace SignatureAlgebra

variable {α β γ δ : Type} {M : Type → Type} [Monad M]

/-- **Two actions in step**: they do the same, and what they give together is related. -/
def InStep (R : α → β → Prop) (x : M α) (y : M β) : Prop :=
  ∃ both : M {pair : α × β // R pair.1 pair.2},
    (fun pair => pair.1.1) <$> both = x ∧ (fun pair => pair.1.2) <$> both = y

namespace InStep

variable [LawfulMonad M] {R : α → β → Prop} {x : M α} {y : M β}

theorem pure {a : α} {b : β} (related : R a b) : InStep R (pure a : M α) (pure b) :=
  ⟨Pure.pure ⟨(a, b), related⟩, map_pure _ _, map_pure _ _⟩

theorem self (x : M α) : InStep Eq x x := by
  refine ⟨(fun a => ⟨(a, a), rfl⟩) <$> x, ?_, ?_⟩ <;> rw [← comp_map] <;> exact id_map x

theorem bind {S : γ → δ → Prop} {f : α → M γ} {g : β → M δ} (first : InStep R x y)
    (next : ∀ a b, R a b → InStep S (f a) (g b)) : InStep S (x >>= f) (y >>= g) := by
  obtain ⟨both, rfl, rfl⟩ := first
  choose together left right using fun pair : {pair : α × β // R pair.1 pair.2} =>
    next pair.1.1 pair.1.2 pair.2
  refine ⟨both >>= together, ?_, ?_⟩
  · rw [map_bind, bind_map_left]
    exact congrArg (both >>= ·) (funext left)
  · rw [map_bind, bind_map_left]
    exact congrArg (both >>= ·) (funext right)

theorem imp {S : α → β → Prop} (step : InStep R x y) (weaker : ∀ a b, R a b → S a b) : InStep S x y := by
  have again := step.bind (f := Pure.pure) (g := Pure.pure) fun a b related => pure (weaker a b related)
  rwa [bind_pure, bind_pure] at again

/-- What the first action gives may be put into something. -/
theorem map_left {S : γ → β → Prop} (step : InStep R x y) (build : α → γ)
    (related : ∀ a b, R a b → S (build a) b) : InStep S (do return build (← x)) y := by
  have after := step.bind (f := fun a => Pure.pure (build a)) (g := Pure.pure) fun a b holds =>
    pure (related a b holds)
  rwa [bind_pure] at after

/-! ### On a state -/

/-- Actions on a state are in step if they always lead to one state, with related values. -/
theorem state_iff {σ : Type} {x : StateM σ α} {y : StateM σ β} :
    InStep R x y ↔ ∀ s, R (x s).1 (y s).1 ∧ (x s).2 = (y s).2 := by
  constructor
  · rintro ⟨both, rfl, rfl⟩ s
    exact ⟨(both s).1.2, rfl⟩
  · intro related
    refine ⟨fun s => (⟨((x s).1, (y s).1), (related s).1⟩, (x s).2), rfl, ?_⟩
    funext s
    exact Prod.ext rfl (related s).2

/-- What is in step on a state with an action that is in step with a third one. -/
theorem trans {σ : Type} {S : β → γ → Prop} {x : StateM σ α} {y : StateM σ β} {z : StateM σ γ}
    (first : InStep R x y) (second : InStep S y z) : InStep (fun a c => ∃ b, R a b ∧ S b c) x z := by
  refine state_iff.2 fun s => ?_
  obtain ⟨related, same⟩ := state_iff.1 first s
  obtain ⟨related', same'⟩ := state_iff.1 second s
  exact ⟨⟨_, related, related'⟩, same.trans same'⟩

/-- Actions in step are both refused, for one reason, or both give something; they lead to one state. -/
theorem of_except {ε σ : Type} {x : ExceptT ε (StateM σ) α} {y : ExceptT ε (StateM σ) β}
    (step : InStep R x y) (s : σ) :
    (x s).2 = (y s).2 ∧ ((∃ e, (x s).1 = .error e ∧ (y s).1 = .error e) ∨
      ∃ a b, (x s).1 = .ok a ∧ (y s).1 = .ok b ∧ R a b) := by
  obtain ⟨both, rfl, rfl⟩ := step
  have mapped : ∀ {γ : Type} (f : {pair : α × β // R pair.1 pair.2} → γ),
      (f <$> both) s = ((both s).1.map f, (both s).2) := by
    intro γ f
    rw [← bind_pure_comp]
    show ExceptT.bindCont (m := StateM σ) (Pure.pure ∘ f) (both s).1 (both s).2 = _
    cases (both s).1 <;> rfl
  rw [mapped, mapped]
  refine ⟨rfl, ?_⟩
  cases (both s).1 with
  | error e => exact Or.inl ⟨e, rfl, rfl⟩
  | ok pair => exact Or.inr ⟨pair.1.1, pair.1.2, rfl, rfl, pair.2⟩

/-! ### Items and what they hold -/

section Items

variable {ι κ ρ : Type} {action : ι → M κ} {f : α → M β} {place : ι → α} {place' : κ → β}
  {rest : ι → ρ} {rest' : κ → ρ}

/-- **Going through items** is going through what they hold, if that is so for each; the rest of the items
stays. -/
theorem items (each : ∀ i, InStep (fun k b => place' k = b ∧ rest' k = rest i) (action i) (f (place i)))
    (is : List ι) :
    InStep (fun ks bs => ks.map place' = bs ∧ ks.map rest' = is.map rest) (is.mapM action)
      ((is.map place).mapM f) := by
  induction is with
  | nil => exact pure ⟨rfl, rfl⟩
  | cons i is ih =>
    simp only [List.map_cons, List.mapM_cons]
    refine (each i).bind fun k b first => ih.bind fun ks bs more => pure ?_
    obtain ⟨rfl, same⟩ := first
    obtain ⟨rfl, same'⟩ := more
    exact ⟨rfl, congrArg₂ List.cons same same'⟩

theorem list (f : α → M β) (as : List α) :
    InStep (fun bs bs' => bs = bs' ∧ (bs.map fun _ => ()) = as.map fun _ => ()) (as.mapM f) (as.mapM f) := by
  have step : InStep (fun bs bs' => bs.map id = bs' ∧ (bs.map fun _ => ()) = as.map fun _ => ())
      (as.mapM f) ((as.map id).mapM f) :=
    items (fun a => (self (f a)).imp fun _ _ same => ⟨same, rfl⟩) as
  rw [List.map_id] at step
  exact step.imp fun bs bs' related => ⟨(List.map_id bs).symm.trans related.1, related.2⟩

end Items

end InStep

end SignatureAlgebra
