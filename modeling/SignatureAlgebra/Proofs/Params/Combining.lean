/-
**Positions and keywords through the operations on parameter lists.**

Every parameter stands at a position of its own: at a place among the required or the optional ones, or under
a keyword. Changing what the parameters hold goes from position to position and leaves them, and combining two
lists takes what both hold at one position. So a keyword meets the same keyword of the other list, and no other.

* `NameMap.map_unit_eq_iff`, `Params.sameShape_iff` — what lists of one shape have in common.
* `Params.entries` — what the parameters hold, each with its position; `Params.zip_entries` — the entries of two
  lists side by side.
* `Params.mapM_entries`, `Params.mapM_pure` — changing what the parameters hold.
* `Params.zipWithM?_map_map` — combining two lists is going through their pairing;
  `Params.of_zipWithM?_eq_some` — what it gives.
* `Params.agree_on_positions` — all operations.
-/
import SignatureAlgebra.Proofs.Declared.Places
import SignatureAlgebra.Proofs.NameMap.Lookup
import SignatureAlgebra.Proofs.Params.Positions

namespace SignatureAlgebra

variable {α β γ σ : Type}

/-! ### Shapes -/

namespace NameMap

@[simp] theorem keys_map (f : α → β) (m : NameMap α) : (m.map f).keys = m.keys := by
  rw [keys, toList_map, List.map_map]
  rfl

/-- Without their values, maps are the same exactly if they bind the same names. -/
theorem map_unit_eq_iff {m : NameMap α} {m' : NameMap β} :
    (m.map fun _ => ()) = (m'.map fun _ => ()) ↔ m.keys = m'.keys := by
  constructor
  · intro same
    rw [← keys_map (fun _ => ()) m, same, keys_map]
  · intro same
    have bindings : ∀ {δ : Type} (n : NameMap δ), (n.map fun _ => ()).toList = n.keys.map (·, ()) := by
      intro δ n
      rw [toList_map, keys, List.map_map]
      rfl
    rw [← ofList_toList (m.map fun _ => ()), bindings, same, ← bindings, ofList_toList]

end NameMap

namespace Params

theorem map_unit_eq_iff {as : List α} {bs : List β} :
    (as.map fun _ => ()) = (bs.map fun _ => ()) ↔ as.length = bs.length := by
  rw [List.map_const', List.map_const', List.replicate_inj]
  exact and_iff_left (Or.inr rfl)

theorem map_unit_rest_eq_iff {o : Option α} {o' : Option β} :
    (o.map fun _ => ()) = (o'.map fun _ => ()) ↔ o.isSome = o'.isSome := by
  cases o <;> cases o' <;> simp

/-- **Lists of one shape** have the same number of parameters in each group, and the same keywords. -/
theorem sameShape_iff {p : Params α} {q : Params β} :
    p.SameShape q ↔
      p.required.length = q.required.length ∧ p.optional.length = q.optional.length ∧
      p.rest.isSome = q.rest.isSome ∧ p.keywords.keys = q.keywords.keys ∧
      p.optionalKeywords.keys = q.optionalKeywords.keys ∧ p.restKeywords.isSome = q.restKeywords.isSome := by
  simp only [SameShape, shape, map, mk.injEq, map_unit_eq_iff, map_unit_rest_eq_iff, NameMap.map_unit_eq_iff]

theorem equivalence_sameShape : Equivalence fun p q : Params α => p.SameShape q where
  refl _ := rfl
  symm := Eq.symm
  trans := Eq.trans

/-! ### Positions -/

/-- Where a parameter stands. -/
inductive Position where
  | required (place : Nat)
  | optional (place : Nat)
  | rest
  | keyword (name : Name)
  | optionalKeyword (name : Name)
  | restKeywords
deriving DecidableEq, Repr

def placed (position : Nat → Position) (as : List α) : List (Position × α) :=
  as.zipIdx.map fun a => (position a.2, a.1)

def named (position : Name → Position) (m : NameMap α) : List (Position × α) :=
  m.toList.map fun binding => (position binding.1, binding.2)

/-- What the parameters hold, each with its position, group by group. -/
def entries (p : Params α) : List (Position × α) :=
  placed .required p.required ++ placed .optional p.optional ++ p.rest.toList.map (.rest, ·) ++
    named .keyword p.keywords ++ named .optionalKeyword p.optionalKeywords ++
    p.restKeywords.toList.map (.restKeywords, ·)

theorem map_snd_placed (position : Nat → Position) (as : List α) :
    (placed position as).map Prod.snd = as := by
  rw [placed, List.map_map]
  exact List.zipIdx_map_fst 0 as

theorem map_snd_named (position : Name → Position) (m : NameMap α) :
    (named position m).map Prod.snd = m.values := by
  rw [named, List.map_map]
  exact NameMap.map_snd_listFrom 0 m.gaps

/-- The entries hold what the parameters hold, in the same order. -/
theorem map_snd_entries (p : Params α) : p.entries.map Prod.snd = p.toList := by
  simp only [entries, toList, List.map_append, map_snd_placed, map_snd_named, List.map_map, Function.comp_def,
    List.map_id']

theorem placed_map (f : α → β) (position : Nat → Position) (as : List α) :
    placed position (as.map f) = (placed position as).map fun entry => (entry.1, f entry.2) := by
  rw [placed, placed, List.zipIdx_map, List.map_map, List.map_map]
  rfl

theorem named_map (f : α → β) (position : Name → Position) (m : NameMap α) :
    named position (m.map f) = (named position m).map fun entry => (entry.1, f entry.2) := by
  rw [named, named, NameMap.toList_map, List.map_map, List.map_map]
  rfl

/-- Every parameter keeps its position. -/
theorem entries_map (f : α → β) (p : Params α) :
    (p.map f).entries = p.entries.map fun entry => (entry.1, f entry.2) := by
  have inRest : ∀ (position : Position) (o : Option α),
      (o.map f).toList.map (position, ·) =
        (o.toList.map (position, ·)).map fun entry => (entry.1, f entry.2) := by
    intro position o
    cases o <;> rfl
  simp only [entries, map, List.map_append, placed_map, named_map, inRest]

theorem SameShape.map_fst_entries {p : Params α} {q : Params β} (same : p.SameShape q) :
    p.entries.map Prod.fst = q.entries.map Prod.fst := by
  have positions : ∀ {δ : Type} (r : Params δ), r.shape.entries.map Prod.fst = r.entries.map Prod.fst := by
    intro δ r
    rw [shape, entries_map, List.map_map]
    rfl
  rw [← positions p, same, positions q]

/-! ### Changing what the parameters hold -/

/-- Changes what stands at a position by an action. -/
def atPosition (f : α → StateM σ β) (entry : Position × α) : StateM σ (Position × β) :=
  do return (entry.1, ← f entry.2)

/-- **Going through parameters** is going through their entries. -/
theorem mapM_entries (f : α → StateM σ β) (p : Params α) (s : σ) :
    ((p.mapM f s).1.entries, (p.mapM f s).2) = p.entries.mapM (atPosition f) s := by
  obtain ⟨⟨held, form⟩, state⟩ := InStep.state_iff.1 (p.inStep_toList f) s
  obtain ⟨⟨held', kept⟩, state'⟩ := InStep.state_iff.1 (InStep.items (inStep_keyed f) p.entries) s
  rw [map_snd_entries] at held' state'
  have same : (p.mapM f s).1.SameShape p := form
  have positions : (p.entries.mapM (atPosition f) s).1.map Prod.fst = p.entries.map Prod.fst := by
    have withoutValues := congrArg (List.map Prod.fst) kept
    rwa [List.map_map, List.map_map] at withoutValues
  refine Prod.ext ?_ (state.trans state'.symm)
  exact (List.zip_of_prod same.map_fst_entries ((map_snd_entries _).trans held)).trans
    (List.zip_of_prod positions held').symm

/-- Without a state, going through parameters changes what they hold. -/
theorem mapM_pure {M : Type → Type} [Monad M] [LawfulMonad M] (f : α → β) (p : Params α) :
    p.mapM (fun a => (pure (f a) : M β)) = pure (p.map f) := by
  have inRest : ∀ o : Option α, mapRestM (fun a => (pure (f a) : M β)) o = pure (o.map f) := by
    intro o
    cases o <;> simp [mapRestM]
  have inKeywords : ∀ m : NameMap α, m.mapM (fun a => (pure (f a) : M β)) = pure (m.map f) := by
    intro m
    simp [NameMap.mapM, NameMap.map]
  simp only [mapM, map, inRest, inKeywords, List.mapM_pure, pure_bind]

/-! ### Combining two lists -/

/-- Combines what stands at the position of the first entry with what the second one holds. -/
def atPositions (f : α → β → StateM σ γ) (entries : (Position × α) × (Position × β)) : StateM σ (Position × γ) :=
  do return (entries.1.1, ← f entries.1.2 entries.2.2)

/-- The entries of two lists side by side are the entries of their pairing. -/
theorem zip_entries (pairs : Params (α × β)) :
    (pairs.map Prod.fst).entries.zip (pairs.map Prod.snd).entries =
      pairs.entries.map fun entry => ((entry.1, entry.2.1), (entry.1, entry.2.2)) := by
  rw [entries_map, entries_map, List.zip_map']

theorem mapM_zip_entries (pairs : Params (α × β)) (f : α → β → StateM σ γ) :
    ((pairs.map Prod.fst).entries.zip (pairs.map Prod.snd).entries).mapM (atPositions f) =
      pairs.entries.mapM (atPosition fun pair => f pair.1 pair.2) := by
  rw [zip_entries, List.mapM_map]
  rfl

theorem zip_toList (pairs : Params (α × β)) :
    (pairs.map Prod.fst).toList.zip (pairs.map Prod.snd).toList = pairs.toList := by
  rw [toList_map, toList_map]
  exact (List.zip_of_prod rfl rfl).symm

theorem zip?_eq_none_iff {p : Params α} {q : Params β} : p.zip? q = none ↔ ¬ p.SameShape q := by
  rw [← exists_zip?_iff, Option.eq_none_iff_forall_ne_some, not_exists]

section Pairs

variable {M : Type → Type} [Monad M] {p : Params α} {q : Params β} {f : α → β → M γ}

theorem zipWithM?_of_not (different : ¬ p.SameShape q) : p.zipWithM? f q = pure none := by
  rw [zipWithM?, zip?_eq_none_iff.2 different]

theorem zipWithM?_map_map (pairs : Params (α × β)) (f : α → β → M γ) :
    (pairs.map Prod.fst).zipWithM? f (pairs.map Prod.snd) =
      do return some (← pairs.mapM fun pair => f pair.1 pair.2) := by
  rw [zipWithM?, zip?_eq_some_iff.2 ⟨rfl, rfl⟩]

/-- Without a state, two lists are combined as they are position by position. -/
theorem zipWithM?_pure [LawfulMonad M] (f : α → β → γ) (p : Params α) (q : Params β) :
    p.zipWithM? (fun a b => (pure (f a b) : M γ)) q = pure (p.zipWith? f q) := by
  rw [zipWithM?, zipWith?]
  cases p.zip? q with
  | none => rfl
  | some pairs => simp only [mapM_pure fun pair : α × β => f pair.1 pair.2, pure_bind, Option.map_some]

end Pairs

/-- **What combining gives** stands at the positions of both lists; the action is done for what they hold side
by side. -/
theorem of_zipWithM?_eq_some {p : Params α} {q : Params β} {f : α → β → StateM σ γ} {s later : σ} {r : Params γ}
    (combined : p.zipWithM? f q s = (some r, later)) :
    (r.toList, later) = (p.toList.zip q.toList).mapM (fun pair => f pair.1 pair.2) s ∧
      (r.entries, later) = (p.entries.zip q.entries).mapM (atPositions f) s ∧
      (∀ entries ∈ p.entries.zip q.entries, entries.1.1 = entries.2.1) ∧ r.SameShape p ∧ r.SameShape q := by
  by_cases same : p.SameShape q
  · obtain ⟨pairs, paired⟩ := exists_zip?_iff.2 same
    obtain ⟨rfl, rfl⟩ := zip?_eq_some_iff.1 paired
    have run : (some (pairs.mapM (fun pair => f pair.1 pair.2) s).1,
        (pairs.mapM (fun pair => f pair.1 pair.2) s).2) = (some r, later) :=
      (congrFun (zipWithM?_map_map pairs f) s).symm.trans combined
    obtain ⟨isResult, rfl⟩ := Prod.mk.inj run
    obtain rfl := Option.some.inj isResult
    obtain ⟨⟨held, form⟩, state⟩ := InStep.state_iff.1 (pairs.inStep_toList fun pair => f pair.1 pair.2) s
    rw [zip_toList, mapM_zip_entries, zip_entries]
    refine ⟨Prod.ext held state, mapM_entries _ pairs s, ?_, Eq.trans form (shape_map _ _).symm,
      Eq.trans form (shape_map _ _).symm⟩
    intro entries isThere
    obtain ⟨entry, _, rfl⟩ := List.mem_map.1 isThere
    rfl
  · rw [zipWithM?_of_not same] at combined
    cases (Prod.mk.inj combined).1

theorem isSome_zipWithM?_iff {p : Params α} {q : Params β} {f : α → β → StateM σ γ} {s : σ} :
    (p.zipWithM? f q s).1.isSome ↔ p.SameShape q := by
  by_cases same : p.SameShape q
  · obtain ⟨pairs, paired⟩ := exists_zip?_iff.2 same
    rw [zipWithM?, paired]
    exact iff_of_true rfl same
  · rw [zipWithM?_of_not same]
    exact iff_of_false Bool.false_ne_true same

/-- **The operations agree on positions.** Changing what parameters hold, by an action on a state, goes through
the list of it from left to right and keeps the shape. Lists of one shape, an equivalence, have as many
parameters in each group and the same keywords. They can be combined, by an action, and no others can: the action
is done for what both lists hold, side by side and from left to right, each time at one position, with one
keyword if it is a keyword, and what it gives stands there in a list of the same shape. A function without a
state is an action that leaves it alone. -/
theorem agree_on_positions :
    (∀ (p : Params α) (f : α → StateM σ β) (s : σ),
      let answer := p.mapM f s
      (answer.1.toList, answer.2) = p.toList.mapM f s ∧ answer.1.SameShape p) ∧
    (Equivalence fun p q : Params α => p.SameShape q) ∧
    (∀ p q : Params α, p.SameShape q ↔
      p.required.length = q.required.length ∧ p.optional.length = q.optional.length ∧
      p.rest.isSome = q.rest.isSome ∧ p.keywords.keys = q.keywords.keys ∧
      p.optionalKeywords.keys = q.optionalKeywords.keys ∧ p.restKeywords.isSome = q.restKeywords.isSome) ∧
    (∀ (p : Params α) (q : Params β) (f : α → β → StateM σ γ) (s : σ),
      let answer := p.zipWithM? f q s
      (answer.1.isSome ↔ p.SameShape q) ∧
      ∀ r ∈ answer.1,
        (r.toList, answer.2) = (p.toList.zip q.toList).mapM (fun pair => f pair.1 pair.2) s ∧
        (r.entries, answer.2) = (p.entries.zip q.entries).mapM (atPositions f) s ∧
        (∀ entries ∈ p.entries.zip q.entries, entries.1.1 = entries.2.1) ∧
        r.SameShape p ∧ r.SameShape q) ∧
    (∀ (p : Params α) (f : α → β) (s : σ), p.mapM (fun a => (pure (f a) : StateM σ β)) s = (p.map f, s)) ∧
    ∀ (p : Params α) (q : Params β) (f : α → β → γ) (s : σ),
      p.zipWithM? (fun a b => (pure (f a b) : StateM σ γ)) q s = (p.zipWith? f q, s) := by
  refine ⟨fun p f s => ?_, equivalence_sameShape, fun p q => sameShape_iff, fun p q f s => ?_,
    fun p f s => congrFun (mapM_pure f p) s, fun p q f s => congrFun (zipWithM?_pure f p q) s⟩
  · obtain ⟨⟨held, form⟩, state⟩ := InStep.state_iff.1 (p.inStep_toList f) s
    exact ⟨Prod.ext held state, form⟩
  · refine ⟨isSome_zipWithM?_iff, fun r isResult => of_zipWithM?_eq_some ?_⟩
    exact Prod.ext isResult rfl

/-- Two lists whose keywords were given in different orders, combined by an action that keeps an account of what
it met. -/
theorem agree_on_positions_keywords :
    let p : Params String := { (positional ["a"] : Params String) with keywords := .ofList [(⟨7⟩, "b"), (⟨3⟩, "c")] }
    let q : Params Nat := { (positional [1] : Params Nat) with keywords := .ofList [(⟨3⟩, 2), (⟨7⟩, 3)] }
    let both (a : String) (b : Nat) : StateM (List (String × Nat)) (String × Nat) :=
      fun account => ((a, b), account ++ [(a, b)])
    let answer := p.zipWithM? both q []
    let r : Params (String × Nat) :=
      { (positional [("a", 1)] : Params (String × Nat)) with keywords := .ofList [(⟨7⟩, ("b", 3)), (⟨3⟩, ("c", 2))] }
    answer = (some r, [("a", 1), ("c", 2), ("b", 3)]) ∧ r ∈ answer.1 ∧ p.SameShape q ∧
      (r.entries, answer.2) = (p.entries.zip q.entries).mapM (atPositions both) [] ∧ r.SameShape q := by
  intro p q both answer r
  have computed : answer = (some r, [("a", 1), ("c", 2), ("b", 3)]) := by rfl
  have isAnswer : r ∈ answer.1 := by
    rw [computed]
    rfl
  obtain ⟨combinable, combined⟩ := agree_on_positions.2.2.2.1 p q both []
  obtain ⟨_, entries, _, _, same⟩ := combined r isAnswer
  exact ⟨computed, isAnswer, combinable.1 (Option.isSome_iff_exists.2 ⟨r, isAnswer⟩), entries, same⟩

end Params

end SignatureAlgebra
