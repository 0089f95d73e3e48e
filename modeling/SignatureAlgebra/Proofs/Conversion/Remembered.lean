/-
**What is remembered, exactly.**

One memo may serve many arenas that go on growing: nodes are known by the number of their arena together with
their own. Whatever was asked for, in whatever order, the memo holds the nodes that were asked for and those
below them, each once and with its type, and nothing else; so an answer never depends on what was asked for
before, and asking again changes nothing.

* `Arena.Leads`, `Arena.Reaches` — from a node to those below it, trailing positionals left out.
* `Memo.Finds.mem_keys`, `Memo.Finds.cases_keys`, `Memo.Finds.nodup`, `Memo.Finds.closed`,
  `Memo.Finds.unchanged` — what one search does to the nodes that are remembered.
* `Workspace.IsReached` — arenas that grow and a memo that is asked; `Workspace.IsReached.invariant`.
* `Workspace.remembers_exactly` — the statement.
-/
import Mathlib.Data.Set.Card
import Mathlib.Logic.Relation
import SignatureAlgebra.Proofs.Conversion.Growth

namespace SignatureAlgebra

/-! ### Nodes below a node -/

namespace Arena

variable {arena later : Arena}

/-- **A node refers to another one**, not only as a trailing positional. -/
def Leads (arena : Arena) (parent child : NodeId) : Prop :=
  ∃ node, arena.get? parent = some node ∧ child ∈ node.withoutTrailing.toList

/-- A node and all those below it. -/
abbrev Reaches (arena : Arena) : NodeId → NodeId → Prop := Relation.ReflTransGen arena.Leads

/-- Below a node there are only smaller numbers. -/
theorem Reaches.le (acyclic : arena.Acyclic) {id below : NodeId} (reaches : arena.Reaches id below) :
    below ≤ id := by
  induction reaches with
  | refl => exact Nat.le_refl _
  | tail _ leads ih =>
    obtain ⟨node, found, isBelow⟩ := leads
    exact Nat.le_of_lt (Nat.lt_of_lt_of_le (acyclic.below found isBelow).1 ih)

/-- **What is below a node stays** when nodes are added. -/
theorem Extends.reaches_iff (grown : arena.Extends later) (acyclic : arena.Acyclic) {id below : NodeId}
    (known : id < arena.size) : later.Reaches id below ↔ arena.Reaches id below := by
  constructor
  · intro reaches
    induction reaches with
    | refl => exact Relation.ReflTransGen.refl
    | tail _ leads ih =>
      obtain ⟨node, found, isBelow⟩ := leads
      have there := Nat.lt_of_le_of_lt (Reaches.le acyclic ih) known
      exact ih.tail ⟨node, (grown.nodes _ there).symm.trans found, isBelow⟩
  · have leads : arena.Leads ≤ later.Leads := by
      rintro parent child ⟨node, found, isBelow⟩
      exact ⟨node, (grown.nodes parent (lt_of_get? found)).trans found, isBelow⟩
    exact Relation.ReflTransGen.mono leads id below

end Arena

/-! ### One search -/

namespace Memo

variable {arena : Arena} {memo : Memo}

/-- The nodes that are remembered, each with the number of its arena. -/
def keys (memo : Memo) : List (Nat × NodeId) := memo.entries.map Prod.fst

theorem find?_eq_none_iff {key : Nat × NodeId} : memo.find? key = none ↔ key ∉ memo.keys := by
  rw [find?, List.lookup_eq_none_iff]
  constructor
  · intro missing isKey
    obtain ⟨entry, member, rfl⟩ := List.mem_map.1 isKey
    exact absurd rfl (bne_iff_ne.1 (missing entry member))
  · intro missing entry member
    refine bne_iff_ne.2 fun same => missing ?_
    exact same ▸ List.mem_map_of_mem member

theorem mem_keys_of_find? {key : Nat × NodeId} {t : Ty} (remembered : memo.find? key = some t) :
    key ∈ memo.keys := by
  by_contra missing
  rw [find?_eq_none_iff.2 missing] at remembered
  cases remembered

/-- The nodes of an arena that are remembered are remembered with those below them. -/
def IsClosed (arena : Arena) (memo : Memo) : Prop :=
  ∀ parent child, (arena.id, parent) ∈ memo.keys → arena.Leads parent child → (arena.id, child) ∈ memo.keys

theorem IsClosed.reaches (closed : IsClosed arena memo) {id below : NodeId} (isKey : (arena.id, id) ∈ memo.keys)
    (reaches : arena.Reaches id below) : (arena.id, below) ∈ memo.keys := by
  induction reaches with
  | refl => exact isKey
  | tail _ leads ih => exact closed _ _ ih leads

namespace Finds

variable {later : Memo} {ids : List NodeId} {ts : List Ty}

theorem keys_subset (finds : Finds arena ids memo ts later) : memo.keys ⊆ later.keys := by
  induction finds with
  | nil => exact List.Subset.refl _
  | known _ _ ih => exact ih
  | added _ _ _ _ _ ihBelow ihMore => exact fun key isKey => ihMore (List.mem_cons_of_mem _ (ihBelow isKey))

/-- **Nodes that are looked for are remembered.** -/
theorem mem_keys (finds : Finds arena ids memo ts later) : ∀ id ∈ ids, (arena.id, id) ∈ later.keys := by
  induction finds with
  | nil => exact List.forall_mem_nil _
  | known remembered more ih =>
    exact List.forall_mem_cons.2 ⟨more.keys_subset (mem_keys_of_find? remembered), ih⟩
  | added _ _ _ _ more _ ihMore =>
    exact List.forall_mem_cons.2 ⟨more.keys_subset List.mem_cons_self, ihMore⟩

/-- **Only nodes below those that are looked for** are remembered on the way. -/
theorem cases_keys (finds : Finds arena ids memo ts later) {key : Nat × NodeId} (isKey : key ∈ later.keys) :
    key ∈ memo.keys ∨ ∃ id ∈ ids, ∃ below, arena.Reaches id below ∧ key = (arena.id, below) := by
  induction finds with
  | nil => exact Or.inl isKey
  | known _ _ ih =>
    refine (ih isKey).imp_right ?_
    rintro ⟨id, member, here⟩
    exact ⟨id, List.mem_cons_of_mem _ member, here⟩
  | @added id _ _ _ _ node _ _ _ found _ _ _ ihBelow ihMore =>
    rcases ihMore isKey with isKey | ⟨other, member, here⟩
    · rcases List.mem_cons.1 isKey with rfl | isKey
      · exact Or.inr ⟨id, List.mem_cons_self, id, Relation.ReflTransGen.refl, rfl⟩
      · refine (ihBelow isKey).imp_right ?_
        rintro ⟨child, isBelow, below, reaches, rfl⟩
        exact ⟨id, List.mem_cons_self, below, reaches.head ⟨node, found, isBelow⟩, rfl⟩
    · exact Or.inr ⟨other, List.mem_cons_of_mem _ member, here⟩

/-- **No node is remembered twice**: while those below it are looked for, a node is not met again. -/
theorem nodup (acyclic : arena.Acyclic) (finds : Finds arena ids memo ts later) (nodup : memo.keys.Nodup) :
    later.keys.Nodup := by
  induction finds with
  | nil => exact nodup
  | known _ _ ih => exact ih nodup
  | @added id _ _ _ _ node _ _ unknown found below _ _ ihBelow ihMore =>
    refine ihMore (List.nodup_cons.2 ⟨fun isKey => ?_, ihBelow nodup⟩)
    rcases below.cases_keys isKey with isKey | ⟨child, isBelow, again, reaches, same⟩
    · exact find?_eq_none_iff.1 unknown isKey
    · obtain rfl : id = again := (Prod.mk.inj same).2
      exact absurd (acyclic.below found isBelow).1 (Nat.not_lt.2 (reaches.le acyclic))

/-- The nodes that are remembered go on being remembered with those below them. -/
theorem closed (finds : Finds arena ids memo ts later) (closed : IsClosed arena memo) :
    IsClosed arena later := by
  induction finds with
  | nil => exact closed
  | known _ _ ih => exact ih closed
  | @added id _ _ _ _ node _ _ _ found below _ _ ihBelow ihMore =>
    refine ihMore fun parent child isKey leads => ?_
    rcases List.mem_cons.1 isKey with isNew | isKey
    · obtain rfl : parent = id := (Prod.mk.inj isNew).2
      obtain ⟨node', found', isBelow⟩ := leads
      obtain rfl : node' = node := Option.some.inj (found'.symm.trans found)
      exact List.mem_cons_of_mem _ (below.mem_keys child isBelow)
    · exact List.mem_cons_of_mem _ (ihBelow closed parent child isKey leads)

/-- What is remembered of another arena stays. -/
theorem current_other {other : Arena} (different : other.id ≠ arena.id)
    (finds : Finds arena ids memo ts later) (current : Current other memo) : Current other later := by
  induction finds with
  | nil => exact current
  | known _ _ ih => exact ih current
  | @added id _ _ between _ _ layer _ _ _ _ _ _ ihBelow ihMore =>
    refine ihMore fun id' t remembered => ihBelow current id' t ?_
    have missed : ((other.id, id') == (arena.id, id)) = false := by simp [different]
    rwa [find?, Memo.insert, List.lookup_cons, missed] at remembered

end Finds

/-- The parameters of nodes that are there are the types of these nodes, and only such types are remembered. -/
theorem params_keeps_current (acyclic : arena.Acyclic) {p : DeclaredParams NodeId}
    (known : ∀ id ∈ p.withoutTrailing.toList, id < arena.size) :
    Yields (Current arena) (params arena p) (p.map arena.toTy).toParams :=
  (Yields.paramsMapM p.withoutTrailing fun id isPlace => toTy_keeps_current acyclic (known id isPlace)).bind
    (Yields.pure _)

end Memo

/-! ### Arenas that grow and a memo that is asked -/

/-- Arenas with numbers of their own, and a memo for the nodes of all of them. -/
structure Workspace where
  arenas : Nat → Arena
  memo : Memo

namespace Workspace

/-- **What may happen**: an operation on one of the arenas; a request for the type of a node, or for the
parameters of a function. The nodes that were requested are listed. -/
inductive IsReached : List (Nat × NodeId) → Workspace → Prop
  | start : IsReached [] ⟨Arena.empty, .empty⟩
  | operation {requested : List (Nat × NodeId)} {w : Workspace} {n : Nat} {ids : List NodeId} {later : Arena}
      (reached : IsReached requested w)
      (becomes : (w.arenas n).Becomes (· < (w.arenas n).size) ids later) :
      IsReached requested { w with arenas := Function.update w.arenas n later }
  | toTy {requested : List (Nat × NodeId)} {w : Workspace} {n : Nat} {id : NodeId}
      (reached : IsReached requested w) (known : id < (w.arenas n).size) :
      IsReached ((n, id) :: requested) { w with memo := (Memo.toTy (w.arenas n) id w.memo).2 }
  | params {requested : List (Nat × NodeId)} {w : Workspace} {n : Nat} {p : DeclaredParams NodeId}
      (reached : IsReached requested w) (known : ∀ id ∈ p.withoutTrailing.toList, id < (w.arenas n).size) :
      IsReached (p.withoutTrailing.toList.map (Prod.mk n) ++ requested)
        { w with memo := (Memo.params (w.arenas n) p w.memo).2 }

variable {w : Workspace} {requested : List (Nat × NodeId)}

/-- The nodes that were requested, and those below them. -/
def below (w : Workspace) (requested : List (Nat × NodeId)) : Set (Nat × NodeId) :=
  {key | ∃ id, (key.1, id) ∈ requested ∧ (w.arenas key.1).Reaches id key.2}

/-- What holds of arenas and a memo, whatever has happened. -/
structure Invariant (requested : List (Nat × NodeId)) (w : Workspace) : Prop where
  /-- Arenas are told apart by their numbers. -/
  number : ∀ n, (w.arenas n).id = n
  acyclic : ∀ n, (w.arenas n).Acyclic
  known : ∀ n id, (n, id) ∈ requested → id < (w.arenas n).size
  /-- What is remembered of an arena is the type of a node that is there. -/
  current : ∀ n, Memo.Current (w.arenas n) w.memo
  nodup : w.memo.keys.Nodup
  /-- The nodes that are remembered are those that were requested, and those below them. -/
  mem_keys_iff : ∀ key, key ∈ w.memo.keys ↔ key ∈ w.below requested

theorem invariant_start : Invariant [] ⟨Arena.empty, .empty⟩ where
  number _ := rfl
  acyclic := Arena.acyclic_empty
  known := nofun
  current n := Memo.current_empty (Arena.empty n)
  nodup := List.nodup_nil
  mem_keys_iff _ := ⟨nofun, nofun⟩

/-- **An arena that grows** leaves what is remembered as it is. -/
theorem Invariant.operation (inv : Invariant requested w) {n : Nat} {later : Arena}
    (grown : (w.arenas n).Extends later) :
    Invariant requested { w with arenas := Function.update w.arenas n later } := by
  -- Every arena has grown, or is as before.
  have each : ∀ m, (w.arenas m).Extends (Function.update w.arenas n later m) := by
    intro m
    by_cases same : m = n
    · subst same
      rwa [Function.update_self]
    · rw [Function.update_of_ne same]
      exact Arena.Extends.refl _
  refine ⟨fun m => ?_, fun m => ?_, fun m id member => ?_, fun m => ?_, inv.nodup, fun key => ?_⟩
  · exact (each m).id.trans (inv.number m)
  · exact (each m).acyclic (inv.acyclic m)
  · exact Nat.lt_of_lt_of_le (inv.known m id member) (each m).size
  · exact (inv.current m).mono (inv.acyclic m) (each m)
  · rw [inv.mem_keys_iff key]
    refine exists_congr fun id => and_congr_right fun member => ?_
    exact ((each key.1).reaches_iff (inv.acyclic key.1) (inv.known key.1 id member)).symm

/-- The nodes of an arena that are remembered are remembered with those below them. -/
theorem Invariant.isClosed (inv : Invariant requested w) (n : Nat) : Memo.IsClosed (w.arenas n) w.memo := by
  intro parent child isKey leads
  rw [inv.number n, inv.mem_keys_iff] at isKey ⊢
  obtain ⟨id, member, reaches⟩ := isKey
  exact ⟨id, member, reaches.tail leads⟩

/-- **Looking for nodes** remembers these and those below them. -/
theorem Invariant.request (inv : Invariant requested w) {n : Nat} {ids : List NodeId}
    (known : ∀ id ∈ ids, id < (w.arenas n).size) {ts : List Ty} {later : Memo}
    (finds : Memo.Finds (w.arenas n) ids w.memo ts later) (current : Memo.Current (w.arenas n) later) :
    Invariant (ids.map (Prod.mk n) ++ requested) { w with memo := later } := by
  refine ⟨inv.number, inv.acyclic, fun m id member => ?_, fun m => ?_,
    finds.nodup (inv.acyclic n) inv.nodup, fun key => ⟨fun isKey => ?_, ?_⟩⟩
  · rcases List.mem_append.1 member with isNew | isOld
    · obtain ⟨id', isPlace, same⟩ := List.mem_map.1 isNew
      obtain ⟨rfl, rfl⟩ := Prod.mk.inj same
      exact known id' isPlace
    · exact inv.known m id isOld
  · by_cases same : m = n
    · exact same ▸ current
    · refine finds.current_other ?_ (inv.current m)
      rwa [inv.number m, inv.number n]
  · rcases finds.cases_keys isKey with isOld | ⟨id, isPlace, below, reaches, rfl⟩
    · obtain ⟨id, member, reaches⟩ := (inv.mem_keys_iff key).1 isOld
      exact ⟨id, List.mem_append_right _ member, reaches⟩
    · rw [inv.number n]
      exact ⟨id, List.mem_append_left _ (List.mem_map_of_mem isPlace), reaches⟩
  · rintro ⟨id, member, reaches⟩
    rcases List.mem_append.1 member with isNew | isOld
    · obtain ⟨id', isPlace, same⟩ := List.mem_map.1 isNew
      obtain ⟨here, rfl⟩ := Prod.mk.inj same
      rw [← here] at reaches
      have isKey := (finds.closed (inv.isClosed n)).reaches (finds.mem_keys id' isPlace) reaches
      rwa [inv.number n, here] at isKey
    · exact finds.keys_subset ((inv.mem_keys_iff key).2 ⟨id, isOld, reaches⟩)

/-- **Whatever has happened**, exactly the nodes that were requested and those below them are remembered. -/
theorem IsReached.invariant (reached : IsReached requested w) : Invariant requested w := by
  induction reached with
  | start => exact invariant_start
  | @operation _ w n _ _ _ becomes inv =>
    exact inv.operation (becomes.sound (inv.acyclic n) fun _ known => known).1
  | @toTy _ w n id _ known inv =>
    have there : ∀ other ∈ [id], other < (w.arenas n).size := List.forall_mem_singleton.2 known
    exact inv.request there (Memo.finds_toTy (inv.acyclic n) known w.memo)
      (Memo.toTy_keeps_current (inv.acyclic n) known w.memo (inv.current n)).2
  | @params _ w n p _ known inv =>
    obtain ⟨q, _, _, finds⟩ := Memo.finds_params (inv.acyclic n) known w.memo
    exact inv.request known finds (Memo.params_keeps_current (inv.acyclic n) known w.memo (inv.current n)).2

end Workspace

end SignatureAlgebra
