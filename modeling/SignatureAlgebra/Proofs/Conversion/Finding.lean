/-
**Looking for types without counting steps.**

The functions that look for the types of nodes count their steps, so that they end on any arena. The search
itself does not: it goes from a node to those below, until there are none below, and builds the types on its
way back. In an acyclic arena it ends at every node, whatever is remembered, and the functions do what it does.

* `Arena.Finds`, `Memo.Finds` — the search through nodes one after the other, without and with a memo.
* `Arena.finds_iff` — without a memo it ends at the types of the nodes, and nowhere else.
* `Memo.finds_toTy`, `Memo.finds_params`, `Memo.Finds.unique` — with a memo it ends where `Memo.toTy` and
  `Memo.params` do.
-/
import SignatureAlgebra.Proofs.Conversion.RoundTrip
import SignatureAlgebra.Proofs.Declared.Places

namespace SignatureAlgebra

/-- **The types of nodes one after the other**, each from the types of those below it. -/
inductive Arena.Finds (arena : Arena) : List NodeId → List Ty → Prop
  | nil : arena.Finds [] []
  | cons {id : NodeId} {rest : List NodeId} {node : Declared NodeId} {layer : Declared Ty} {ts : List Ty}
      (found : arena.get? id = some node)
      (below : arena.Finds node.withoutTrailing.toList layer.toList)
      (form : (layer.map fun _ => ()) = node.withoutTrailing.map fun _ => ())
      (more : arena.Finds rest ts) : arena.Finds (id :: rest) (layer.toTy :: ts)

/-- **The types of nodes one after the other, with a memo**: what is remembered is taken from it, and what is
found is remembered as soon as it is. -/
inductive Memo.Finds (arena : Arena) : List NodeId → Memo → List Ty → Memo → Prop
  | nil {memo : Memo} : Finds arena [] memo [] memo
  | known {id : NodeId} {rest : List NodeId} {memo later : Memo} {t : Ty} {ts : List Ty}
      (known : memo.find? (arena.id, id) = some t) (more : Finds arena rest memo ts later) :
      Finds arena (id :: rest) memo (t :: ts) later
  | added {id : NodeId} {rest : List NodeId} {memo between later : Memo} {node : Declared NodeId}
      {layer : Declared Ty} {ts : List Ty} (unknown : memo.find? (arena.id, id) = none)
      (found : arena.get? id = some node)
      (below : Finds arena node.withoutTrailing.toList memo layer.toList between)
      (form : (layer.map fun _ => ()) = node.withoutTrailing.map fun _ => ())
      (more : Finds arena rest (between.insert (arena.id, id) layer.toTy) ts later) :
      Finds arena (id :: rest) memo (layer.toTy :: ts) later

/-! ### Without a memo -/

namespace Arena

variable {arena : Arena}

/-- The type of a node from the types below, the places that leave no trace in it left out. -/
theorem toTy_of_get? (acyclic : arena.Acyclic) {id : NodeId} {node : Declared NodeId}
    (found : arena.get? id = some node) : (node.withoutTrailing.map arena.toTy).toTy = arena.toTy id := by
  rw [toTy_eq acyclic id, found, Declared.map_withoutTrailing, Declared.toTy_withoutTrailing]
  rfl

/-- The numbers below a node are smaller than its own, and there are nodes for them. -/
theorem Acyclic.below (acyclic : arena.Acyclic) {id child : NodeId} {node : Declared NodeId}
    (found : arena.get? id = some node) (isBelow : child ∈ node.withoutTrailing.toList) :
    child < id ∧ child < arena.size := by
  have smaller : child < id := acyclic id node found child (Declared.mem_of_mem_withoutTrailing isBelow)
  exact ⟨smaller, Nat.lt_trans smaller (lt_of_get? found)⟩

theorem finds_of_lt (acyclic : arena.Acyclic) {bound : Nat} {ids : List NodeId}
    (small : ∀ id ∈ ids, id < bound ∧ id < arena.size) : arena.Finds ids (ids.map arena.toTy) := by
  induction bound generalizing ids with
  | zero =>
    cases ids with
    | nil => exact Finds.nil
    | cons id rest => exact absurd (small id List.mem_cons_self).1 (Nat.not_lt_zero id)
  | succ bound ihBound =>
    induction ids with
    | nil => exact Finds.nil
    | cons id rest ihRest =>
      obtain ⟨inBound, known⟩ := small id List.mem_cons_self
      obtain ⟨node, found⟩ := get?_of_lt known
      have below : arena.Finds node.withoutTrailing.toList (node.withoutTrailing.map arena.toTy).toList := by
        rw [Declared.toList_map]
        refine ihBound fun child isBelow => ?_
        obtain ⟨smaller, there⟩ := acyclic.below found isBelow
        exact ⟨Nat.lt_of_lt_of_le smaller (Nat.le_of_lt_succ inBound), there⟩
      rw [List.map_cons, ← toTy_of_get? acyclic found]
      exact Finds.cons found below (Declared.form_map _ _)
        (ihRest fun other member => small other (List.mem_cons_of_mem _ member))

theorem Finds.eq_toTy (acyclic : arena.Acyclic) {ids : List NodeId} {ts : List Ty} (finds : arena.Finds ids ts) :
    ts = ids.map arena.toTy := by
  induction finds with
  | nil => rfl
  | @cons id rest node layer ts found below form more ihBelow ihMore =>
    have filled : layer = node.withoutTrailing.map arena.toTy := by
      refine Declared.eq_of_form (form.trans (Declared.form_map _ _).symm) ?_
      rw [ihBelow, Declared.toList_map]
    rw [filled, toTy_of_get? acyclic found, ihMore, List.map_cons]

/-- **The search ends** at the types of the nodes, and nowhere else. -/
theorem finds_iff (acyclic : arena.Acyclic) {ids : List NodeId} (known : ∀ id ∈ ids, id < arena.size)
    {ts : List Ty} : arena.Finds ids ts ↔ ts = ids.map arena.toTy := by
  refine ⟨Finds.eq_toTy acyclic, ?_⟩
  rintro rfl
  exact finds_of_lt acyclic fun id member => ⟨known id member, known id member⟩

end Arena

/-! ### With a memo -/

namespace Memo

variable {arena : Arena}

namespace Finds

/-- The search ends in one way. -/
theorem unique {ids : List NodeId} {memo later later' : Memo} {ts ts' : List Ty}
    (first : Finds arena ids memo ts later) (second : Finds arena ids memo ts' later') :
    ts' = ts ∧ later' = later := by
  induction first generalizing ts' later' with
  | nil =>
    cases second
    exact ⟨rfl, rfl⟩
  | @known id rest memo later t ts known more ih =>
    cases second with
    | known known' more' =>
      obtain ⟨rfl, rfl⟩ := ih more'
      rw [Option.some.inj (known'.symm.trans known)]
      exact ⟨rfl, rfl⟩
    | added unknown => exact absurd (known.symm.trans unknown) nofun
  | @added id rest memo between later node layer ts unknown found below form more ihBelow ihMore =>
    cases second with
    | known known => exact absurd (known.symm.trans unknown) nofun
    | @added _ _ _ between' _ node' layer' ts' _ found' below' form' more' =>
      obtain rfl : node' = node := Option.some.inj (found'.symm.trans found)
      obtain ⟨places, rfl⟩ := ihBelow below'
      obtain rfl : layer' = layer := Declared.eq_of_form (form'.trans form.symm) places
      obtain ⟨rfl, rfl⟩ := ihMore more'
      exact ⟨rfl, rfl⟩

theorem append {ids ids' : List NodeId} {memo between later : Memo} {ts ts' : List Ty}
    (first : Finds arena ids memo ts between) (second : Finds arena ids' between ts' later) :
    Finds arena (ids ++ ids') memo (ts ++ ts') later := by
  induction first with
  | nil => exact second
  | known remembered _ ih => exact known remembered (ih second)
  | added unknown found below form _ _ ih => exact added unknown found below form (ih second)

end Finds

/-- Going through a list on a memo: the first, then the rest. -/
theorem mapM_cons_run {α : Type} (f : NodeId → StateM Memo α) (id : NodeId) (rest : List NodeId)
    (memo : Memo) :
    (id :: rest).mapM f memo =
      ((f id memo).1 :: (rest.mapM f (f id memo).2).1, (rest.mapM f (f id memo).2).2) := by
  rw [List.mapM_cons]
  rfl

theorem finds_toTyWithin (acyclic : arena.Acyclic) {depth : Nat} (ids : List NodeId) (memo : Memo)
    (small : ∀ id ∈ ids, id < depth ∧ id < arena.size) :
    Finds arena ids memo (ids.mapM (toTyWithin arena depth) memo).1
      (ids.mapM (toTyWithin arena depth) memo).2 := by
  induction depth generalizing ids memo with
  | zero =>
    cases ids with
    | nil => exact Finds.nil
    | cons id rest => exact absurd (small id List.mem_cons_self).1 (Nat.not_lt_zero id)
  | succ depth ihDepth =>
    induction ids generalizing memo with
    | nil => exact Finds.nil
    | cons id rest ihRest =>
      obtain ⟨inDepth, there⟩ := small id List.mem_cons_self
      obtain ⟨node, found⟩ := Arena.get?_of_lt there
      have inRest := fun memo => ihRest memo fun other member => small other (List.mem_cons_of_mem _ member)
      rw [mapM_cons_run, toTyWithin_run, found]
      cases remembered : memo.find? (arena.id, id) with
      | some t => exact Finds.known remembered (inRest memo)
      | none =>
        -- The layer is gone through as the list of its places is.
        obtain ⟨⟨places, form⟩, same⟩ :=
          InStep.state_iff.1 (node.withoutTrailing.inStep_toList (toTyWithin arena depth)) memo
        have below := ihDepth node.withoutTrailing.toList memo fun child isBelow => by
          obtain ⟨smaller, there⟩ := acyclic.below found isBelow
          exact ⟨Nat.lt_of_lt_of_le smaller (Nat.le_of_lt_succ inDepth), there⟩
        rw [← places, ← same] at below
        exact Finds.added remembered found below form (inRest _)

/-- **`Memo.toTy` does what the search does.** -/
theorem finds_toTy (acyclic : arena.Acyclic) {id : NodeId} (known : id < arena.size) (memo : Memo) :
    Finds arena [id] memo [(toTy arena id memo).1] (toTy arena id memo).2 := by
  have finds : Finds arena [id] memo ([id].mapM (toTyWithin arena (id + 1)) memo).1
      ([id].mapM (toTyWithin arena (id + 1)) memo).2 :=
    finds_toTyWithin acyclic [id] memo fun other member => by
      rw [List.mem_singleton.1 member]
      exact ⟨Nat.lt_succ_self id, known⟩
  rwa [mapM_cons_run] at finds

theorem finds_list (acyclic : arena.Acyclic) (ids : List NodeId) (known : ∀ id ∈ ids, id < arena.size)
    (memo : Memo) :
    Finds arena ids memo (ids.mapM (toTy arena) memo).1 (ids.mapM (toTy arena) memo).2 := by
  induction ids generalizing memo with
  | nil => exact Finds.nil
  | cons id rest ih =>
    rw [mapM_cons_run]
    exact (finds_toTy acyclic (known id List.mem_cons_self) memo).append
      (ih (fun other member => known other (List.mem_cons_of_mem _ member)) _)

/-- **`Memo.params` does what the search does** at the places of the parameters. -/
theorem finds_params (acyclic : arena.Acyclic) {p : DeclaredParams NodeId}
    (known : ∀ id ∈ p.withoutTrailing.toList, id < arena.size) (memo : Memo) :
    ∃ q : DeclaredParams Ty, (q.map fun _ => ()) = p.withoutTrailing.map (fun _ => ()) ∧
      (params arena p memo).1 = q.toParams ∧
      Finds arena p.withoutTrailing.toList memo q.toList (params arena p memo).2 := by
  obtain ⟨⟨places, form⟩, same⟩ :=
    InStep.state_iff.1 (p.withoutTrailing.inStep_toList (toTy arena)) memo
  refine ⟨_, form, rfl, ?_⟩
  have finds := finds_list acyclic p.withoutTrailing.toList known memo
  rw [← places, ← same] at finds
  exact finds

end Memo

end SignatureAlgebra
