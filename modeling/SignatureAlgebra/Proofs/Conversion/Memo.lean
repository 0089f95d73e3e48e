/-
**What is remembered is right.**

Looking for the type of a node remembers the types of all nodes on the way. From a memo in which every
entry of the arena is right the answer is the type of the node, and all entries are right afterwards,
so no answer ever depends on what was looked for before.

* `Yields` — on all states of a kind, an action gives one value and leads to a state of that kind.
* `Memo.Coherent` — every entry for a node of the arena is the type of that node.
* `Memo.toTy_yields`, `Memo.params_yields` — the types of nodes, and the parameters of functions.
-/
import SignatureAlgebra.Proofs.Conversion.Unrolling
import SignatureAlgebra.Proofs.Declared.Places

namespace SignatureAlgebra

/-! ### Actions with one answer -/

/-- On all states of a kind, an action gives `a` and leads to a state of that kind. -/
def Yields {σ α : Type} (kind : σ → Prop) (action : StateM σ α) (a : α) : Prop :=
  ∀ s, kind s → (action s).1 = a ∧ kind (action s).2

namespace Yields

variable {σ α β γ : Type} {kind : σ → Prop}

theorem pure (a : α) : Yields kind (pure a) a := fun _ holds => ⟨rfl, holds⟩

theorem bind {x : StateM σ α} {f : α → StateM σ β} {a : α} {b : β} (first : Yields kind x a)
    (next : Yields kind (f a) b) : Yields kind (x >>= f) b := by
  intro s holds
  obtain ⟨value, holds'⟩ := first s holds
  have after := next (x s).2 holds'
  rw [← value] at after
  exact after

theorem listMapM {f : α → StateM σ β} {g : α → β} (as : List α)
    (each : ∀ a ∈ as, Yields kind (f a) (g a)) : Yields kind (as.mapM f) (as.map g) := by
  induction as with
  | nil => exact pure []
  | cons first rest ih =>
    rw [List.mapM_cons, List.map_cons]
    refine (each first List.mem_cons_self).bind ?_
    refine (ih fun a member => each a (List.mem_cons_of_mem _ member)).bind ?_
    exact pure _

/-- An action on what parameters hold that has one answer for each has one for the parameters. -/
theorem paramsMapM {f : α → StateM σ β} {g : α → β} (p : DeclaredParams α)
    (each : ∀ a ∈ p.toList, Yields kind (f a) (g a)) : Yields kind (p.mapM f) (p.map g) := by
  intro s holds
  obtain ⟨⟨places, form⟩, same⟩ := InStep.state_iff.1 (p.inStep_toList f) s
  obtain ⟨values, holds'⟩ := listMapM p.toList each s holds
  refine ⟨DeclaredParams.eq_of_outline (form.trans (p.form_map g).symm) ?_, same ▸ holds'⟩
  rw [places, values, DeclaredParams.toList_map]

/-- An action on the places of a layer that has one answer at each place has one on the layer. -/
theorem layerMapM {f : α → StateM σ β} {g : α → β} (d : Declared α)
    (each : ∀ a ∈ d.toList, Yields kind (f a) (g a)) : Yields kind (d.mapM f) (d.map g) := by
  intro s holds
  obtain ⟨⟨places, form⟩, same⟩ := InStep.state_iff.1 (d.inStep_toList f) s
  obtain ⟨values, holds'⟩ := listMapM d.toList each s holds
  refine ⟨Declared.eq_of_form (form.trans (d.form_map g).symm) ?_, same ▸ holds'⟩
  rw [places, values, Declared.toList_map]

end Yields

/-! ### Remembered types -/

namespace Memo

variable {arena : Arena}

/-- **Every entry for a node of the arena is the type of that node.** -/
def Coherent (arena : Arena) (memo : Memo) : Prop :=
  ∀ id t, memo.find? (arena.id, id) = some t → t = arena.toTy id

theorem coherent_empty (arena : Arena) : Coherent arena empty := nofun

theorem Coherent.insert {memo : Memo} (coherent : Coherent arena memo) (id : NodeId) :
    Coherent arena (memo.insert (arena.id, id) (arena.toTy id)) := by
  intro id' t found
  rw [find?, Memo.insert, List.lookup_cons] at found
  by_cases same : id' = id
  · subst same
    simpa using found.symm
  · have other : ((arena.id, id') == (arena.id, id)) = false := by simpa using same
    rw [other] at found
    exact coherent id' t found

/-- What looking for the type of a node does to a memo. -/
theorem toTyWithin_run (arena : Arena) (depth : Nat) (id : NodeId) (memo : Memo) :
    toTyWithin arena (depth + 1) id memo =
      match memo.find? (arena.id, id) with
      | some t => (t, memo)
      | none =>
        let layer := ((arena.get? id).getD Arena.missing).withoutTrailing.mapM
          (toTyWithin arena depth) memo
        (layer.1.toTy, layer.2.insert (arena.id, id) layer.1.toTy) := by
  cases found : memo.find? (arena.id, id) <;>
    simp only [toTyWithin, bind, StateT.bind, get, getThe, MonadStateOf.get, StateT.get, pure,
      found] <;>
    rfl

/-- A kind of memo in which what is remembered is right, and that the type of a node of some sort can be
added to, is kept by looking for the type of such a node. -/
theorem toTyWithin_yields {kind : Memo → Prop} (here : NodeId → Prop) (acyclic : arena.Acyclic)
    (right : ∀ memo, kind memo → Coherent arena memo)
    (insert : ∀ memo id, kind memo → here id → kind (memo.insert (arena.id, id) (arena.toTy id)))
    (closed : ∀ {child id : NodeId}, child < id → here id → here child) {depth : Nat} {id : NodeId}
    (enough : id < depth) (isHere : here id) :
    Yields kind (toTyWithin arena depth id) (arena.toTy id) := by
  induction depth generalizing id with
  | zero => exact absurd enough (Nat.not_lt_zero id)
  | succ depth ih =>
    intro memo holds
    rw [toTyWithin_run]
    cases found : memo.find? (arena.id, id) with
    | some t => exact ⟨right memo holds id t found, holds⟩
    | none =>
      have below := Yields.layerMapM ((arena.get? id).getD Arena.missing).withoutTrailing
        fun child member => by
          have smaller := acyclic.child_lt (Declared.mem_of_mem_withoutTrailing member)
          exact ih (Nat.lt_of_lt_of_le smaller (Nat.le_of_lt_succ enough)) (closed smaller isHere)
      obtain ⟨layer, holds'⟩ := below memo holds
      simp only [layer, Declared.map_withoutTrailing, Declared.toTy_withoutTrailing,
        ← Arena.toTy_eq acyclic]
      exact ⟨trivial, insert _ id holds' isHere⟩

/-- **The answer is the type of the node**, whatever was remembered. -/
theorem toTy_yields (acyclic : arena.Acyclic) (id : NodeId) :
    Yields (Coherent arena) (toTy arena id) (arena.toTy id) :=
  toTyWithin_yields (fun _ => True) acyclic (fun _ coherent => coherent)
    (fun _ id coherent _ => coherent.insert id) (fun _ _ => trivial) (Nat.lt_succ_self id) trivial

theorem params_yields (acyclic : arena.Acyclic) (p : DeclaredParams NodeId) :
    Yields (Coherent arena) (params arena p) (p.map arena.toTy).toParams :=
  (Yields.paramsMapM p.withoutTrailing fun id _ => toTy_yields acyclic id).bind (Yields.pure _)

end Memo

end SignatureAlgebra
