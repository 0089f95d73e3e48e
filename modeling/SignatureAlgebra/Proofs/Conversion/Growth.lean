/-
**Arenas only grow.**

Whatever is done to an arena leaves its nodes as they are and adds new ones after them, each over nodes that
are there already; also when declaring a type is refused midway, which leaves nodes behind that nobody has
the number of. So an arena built from nothing is acyclic, every number that was handed out is that of a node,
and looking for the type of such a node ends.

* `Arena.Enlarges` — an action that only adds nodes, refused or not; `Ty.enlarges_declare`,
  `Ty.enlarges_declareFunction`, `MethodType.enlarges_declare`.
* `Arena.Becomes`, `Arena.Becomes.sound` — what one operation does to an arena.
* `Arena.Run`, `Arena.Run.sound` — operations one after the other, on the numbers handed out so far.
* `Arena.IsBuilt.stays` — the statement for arenas built from nothing.
-/
import SignatureAlgebra.Proofs.Conversion.Copying
import SignatureAlgebra.Proofs.Conversion.Finding

namespace SignatureAlgebra

variable {α β : Type}

/-! ### Actions that may be refused -/

namespace Arena

variable {arena : Arena}

/-- **An action that only adds nodes**, whether it is refused or not; what it gives are numbers of nodes. -/
def Enlarges (arena : Arena) (action : Declaring α) (ids : α → List NodeId) : Prop :=
  arena.Extends (action arena).2 ∧
    ∀ v, (action arena).1 = .ok v → ∀ id ∈ ids v, id < (action arena).2.size

namespace Enlarges

theorem pure {v : α} {ids : α → List NodeId} (known : ∀ id ∈ ids v, id < arena.size) :
    arena.Enlarges (pure v) ids :=
  ⟨Extends.refl arena, fun _ given => by cases given; exact known⟩

theorem throw (e : Error) (ids : α → List NodeId) : arena.Enlarges (throw e) ids :=
  ⟨Extends.refl arena, nofun⟩

theorem bind {x : Declaring α} {f : α → Declaring β} {ids : α → List NodeId} {ids' : β → List NodeId}
    (first : arena.Enlarges x ids)
    (next : ∀ (v : α) (later : Arena), arena.Extends later → (∀ id ∈ ids v, id < later.size) →
      later.Enlarges (f v) ids') : arena.Enlarges (x >>= f) ids' := by
  obtain ⟨grown, known⟩ := first
  have run : (x >>= f) arena = ExceptT.bindCont f (x arena).1 (x arena).2 := rfl
  unfold Enlarges
  rw [run]
  cases outcome : (x arena).1 with
  | error e => exact ⟨grown, nofun⟩
  | ok v =>
    obtain ⟨grown', known'⟩ := next v (x arena).2 grown (known v outcome)
    exact ⟨grown.trans grown', known'⟩

/-- An action that goes through places enlarges the arena if going through the list of them does. -/
theorem of_inStep {x : Declaring α} {y : Declaring (List NodeId)} {ids : α → List NodeId}
    {related : α → List NodeId → Prop} (step : InStep related x y) (places : ∀ v bs, related v bs → ids v = bs)
    (list : arena.Enlarges y fun bs => bs) : arena.Enlarges x ids := by
  obtain ⟨grown, known⟩ := list
  obtain ⟨same, ⟨e, refused, _⟩ | ⟨v, bs, given, given', holds⟩⟩ := InStep.of_except step arena <;>
    unfold Enlarges <;> rw [same]
  · refine ⟨grown, fun v given => ?_⟩
    rw [refused] at given
    cases given
  · refine ⟨grown, fun v' given'' => ?_⟩
    obtain rfl : v = v' := by
      rw [given] at given''
      exact Except.ok.inj given''
    rw [places v bs holds]
    exact known bs given'

theorem mapM {f : α → Declaring NodeId} (as : List α)
    (each : ∀ a ∈ as, ∀ arena : Arena, arena.Enlarges (f a) fun id => [id]) (arena : Arena) :
    arena.Enlarges (as.mapM f) fun ids => ids := by
  induction as generalizing arena with
  | nil => exact pure (List.forall_mem_nil _)
  | cons a rest ih =>
    rw [List.mapM_cons]
    refine (each a List.mem_cons_self arena).bind fun id later _ here => ?_
    refine (ih (fun a member => each a (List.mem_cons_of_mem _ member)) later).bind fun ids last grown more => ?_
    refine pure (List.forall_mem_cons.2 ⟨?_, more⟩)
    exact Nat.lt_of_lt_of_le (here id List.mem_cons_self) grown.size

theorem alloc {node : Declared NodeId} (below : ∀ child ∈ node.toList, child < arena.size) :
    arena.Enlarges (Arena.alloc (M := Id) node) fun id => [id] := by
  refine ⟨extends_push below, fun id given other member => ?_⟩
  have last : arena.size = id := Except.ok.inj given
  show other < (arena.push node).size
  rw [List.mem_singleton.1 member, ← last, size_push]
  exact Nat.lt_succ_self _

end Enlarges

end Arena

/-! ### Declaring -/

namespace Ty

theorem exists_of_aliasArguments {t : Ty} (arguments : t.aliasArguments ≠ []) :
    ∃ name arg args, t = .aliasOf name (arg :: args) := by
  obtain ⟨s⟩ := t
  cases s with
  | applied head name args =>
    cases head with
    | ofAlias =>
      cases args with
      | nil => exact absurd rfl arguments
      | cons arg args => exact ⟨name, arg, args, rfl⟩
    | _ => exact absurd rfl arguments
  | _ => exact absurd rfl arguments

/-- An alias with arguments is refused at once. -/
theorem declare_alias (name : TypeName) (arg : Ty) (args : List Ty) :
    declare (.aliasOf name (arg :: args)) = throw (.aliasWithArguments name) := fold_node _ _

/-- **Declaring a type only adds nodes**, also when it is refused. -/
theorem enlarges_declare (t : Ty) : ∀ arena : Arena, arena.Enlarges t.declare fun id => [id] := by
  induction t using Ty.induction with
  | step t ih =>
    intro arena
    by_cases plain : t.aliasArguments = []
    · obtain ⟨s⟩ := t
      rw [declare_node plain]
      have below : arena.Enlarges (s.mapM declare) Shape.toList :=
        .of_inStep (s.inStep_toList declare) (fun _ _ related => related.1) (.mapM s.toList ih arena)
      exact below.bind fun layer later _ known =>
        .alloc fun child member => known child (Shape.mem_of_mem_toDeclared member)
    · obtain ⟨name, arg, args, rfl⟩ := exists_of_aliasArguments plain
      rw [declare_alias]
      exact .throw _ _

/-- Declaring a function only adds nodes, also when it is refused. -/
theorem enlarges_declareFunction (params : Params Ty) (result : Ty) (arena : Arena) :
    arena.Enlarges (declareFunction params result) DeclaredFunction.toList := by
  have inParams : arena.Enlarges (params.mapM declare) Params.toList :=
    .of_inStep (Params.inStep_toList declare params) (fun _ _ related => related.1)
      (.mapM params.toList (fun t _ => t.enlarges_declare) arena)
  refine inParams.bind fun ids later _ known => ?_
  refine (result.enlarges_declare later).bind fun id last grown here => ?_
  refine .pure fun child member => ?_
  have isPlace : child ∈ ids.toList ++ [id] := Shape.mem_of_mem_toDeclared (s := .proc ids id) member
  rcases List.mem_append.1 isPlace with isParam | isResult
  · exact Nat.lt_of_lt_of_le (known child isParam) grown.size
  · exact here child isResult

end Ty

/-- What the places of a method hold: those of its function, then those of its block. -/
def DeclaredMethod.toList (method : DeclaredMethod α) : List α :=
  method.function.toList ++ (method.block.map fun block => block.function.toList).getD []

/-- Declaring a method type only adds nodes, also when it is refused. -/
theorem MethodType.enlarges_declare (type : MethodType) (arena : Arena) :
    arena.Enlarges type.declare DeclaredMethod.toList := by
  unfold declare
  refine (Ty.enlarges_declareFunction type.params type.result arena).bind fun fn later _ known => ?_
  cases type.block with
  | none =>
    refine .pure fun id member => known id ?_
    rwa [DeclaredMethod.toList, Option.map_none, Option.getD_none, List.append_nil] at member
  | some block =>
    refine (Ty.enlarges_declareFunction block.params block.result later).bind fun _ last grown inBlock => ?_
    refine .pure fun id member => ?_
    rcases List.mem_append.1 member with isPlace | isPlace
    · exact Nat.lt_of_lt_of_le (known id isPlace) grown.size
    · exact inBlock id isPlace

namespace Arena

/-! ### Operations -/

/-- The numbers in what an action gave; a refused action gives none. -/
def given (ids : α → List NodeId) : Except Error α → List NodeId
  | .ok v => ids v
  | .error _ => []

/-- **What one operation makes of an arena**, and the numbers that it hands out. Of the numbers that are
usable a node may be looked at, a new node made, and a copy with other type names; types may be declared. -/
inductive Becomes (usable : NodeId → Prop) (arena : Arena) : List NodeId → Arena → Prop
  | get {id : NodeId} {node : Declared NodeId} (isUsable : usable id) (found : arena.get? id = some node) :
      Becomes usable arena node.toList arena
  | alloc {node : Declared NodeId} (areUsable : ∀ child ∈ node.toList, usable child) :
      Becomes usable arena [(Arena.alloc (M := Id) node arena).1] (Arena.alloc (M := Id) node arena).2
  | mapNames {σ : Type} (rename : TypeName → StateM σ TypeName) (s : σ) {id : NodeId} (isUsable : usable id) :
      Becomes usable arena [(Arena.mapNames rename id arena s).1.1] (Arena.mapNames rename id arena s).1.2
  | mapFunctionNames {σ : Type} (rename : TypeName → StateM σ TypeName) (s : σ) {fn : DeclaredFunction NodeId}
      (areUsable : ∀ id ∈ fn.toList, usable id) :
      Becomes usable arena (Arena.mapFunctionNames rename fn arena s).1.1.toList
        (Arena.mapFunctionNames rename fn arena s).1.2
  | declare (t : Ty) : Becomes usable arena (given (fun id => [id]) (t.declare arena).1) (t.declare arena).2
  | declareFunction (params : Params Ty) (result : Ty) :
      Becomes usable arena (given DeclaredFunction.toList (Ty.declareFunction params result arena).1)
        (Ty.declareFunction params result arena).2
  | declareMethod (type : MethodType) :
      Becomes usable arena (given DeclaredMethod.toList (type.declare arena).1) (type.declare arena).2

variable {arena later : Arena} {usable : NodeId → Prop} {handed handed' ids : List NodeId}

theorem Enlarges.given {action : Declaring α} {ids : α → List NodeId} (enlarges : arena.Enlarges action ids) :
    arena.Extends (action arena).2 ∧ ∀ id ∈ given ids (action arena).1, id < (action arena).2.size := by
  refine ⟨enlarges.1, ?_⟩
  cases outcome : (action arena).1 with
  | error e => exact List.forall_mem_nil _
  | ok v => exact enlarges.2 v outcome

/-- Copying with a state of the action that gives the names. -/
theorem Copies.of_state {σ : Type} {start : Arena} {action : StateT Arena (StateM σ) α} {tree : StateM σ β}
    {post : α → β → Arena → Prop} (copies : Copies start arena action tree post) (s : σ) :
    arena.Extends (action arena s).1.2 ∧ post (action arena s).1.1 (tree s).1 (action arena s).1.2 :=
  (InStep.state_iff.1 copies s).1.2

/-- **One operation** only adds nodes over nodes that are there, and hands out numbers of nodes. -/
theorem Becomes.sound (becomes : arena.Becomes usable ids later) (acyclic : arena.Acyclic)
    (known : ∀ id, usable id → id < arena.size) :
    arena.Extends later ∧ ∀ id ∈ ids, id < later.size := by
  cases becomes with
  | get isUsable found =>
    refine ⟨Extends.refl arena, fun child isPart => ?_⟩
    exact Nat.lt_trans (acyclic _ _ found child isPart) (known _ isUsable)
  | @alloc node areUsable =>
    have below : ∀ child ∈ node.toList, child < arena.size := fun child isPart =>
      known child (areUsable child isPart)
    exact ⟨extends_push below, (Enlarges.alloc below).2 _ rfl⟩
  | mapNames rename s isUsable =>
    obtain ⟨grown, stands⟩ :=
      (copiesTree_mapNames rename acyclic (known _ isUsable) arena (Extends.refl arena)).of_state s
    exact ⟨grown, stands.known⟩
  | mapFunctionNames rename s areUsable =>
    have places := copies_function (f := Arena.mapNames rename) _
      (fun id isPart => copiesTree_mapNames rename acyclic (known id (areUsable id isPart))) (Extends.refl arena)
    obtain ⟨grown, stands⟩ := places.of_state s
    exact ⟨grown, stands.known⟩
  | declare t => exact (t.enlarges_declare arena).given
  | declareFunction params result => exact (Ty.enlarges_declareFunction params result arena).given
  | declareMethod type => exact (type.enlarges_declare arena).given

/-! ### Operations one after the other -/

/-- **Operations one after the other**, each on numbers that were handed out before. -/
inductive Run (handed : List NodeId) (arena : Arena) : List NodeId → Arena → Prop
  | start : Run handed arena handed arena
  | step {handed' ids : List NodeId} {between later : Arena} (run : Run handed arena handed' between)
      (becomes : between.Becomes (· ∈ handed') ids later) : Run handed arena (ids ++ handed') later

/-- Every place of every node holds a smaller number, and the numbers handed out are those of nodes. -/
structure IsSound (arena : Arena) (handed : List NodeId) : Prop where
  acyclic : arena.Acyclic
  known : ∀ id ∈ handed, id < arena.size

theorem isSound_empty (number : Nat) : (empty number).IsSound [] := ⟨acyclic_empty number, List.forall_mem_nil _⟩

theorem Run.sound (run : Run handed arena handed' later) (sound : arena.IsSound handed) :
    arena.Extends later ∧ later.IsSound handed' := by
  induction run with
  | start => exact ⟨Extends.refl arena, sound⟩
  | step _ becomes ih =>
    obtain ⟨grown, between⟩ := ih
    obtain ⟨grown', known⟩ := becomes.sound between.acyclic between.known
    refine ⟨grown.trans grown', grown'.acyclic between.acyclic, fun id member => ?_⟩
    rcases List.mem_append.1 member with isNew | isOld
    · exact known id isNew
    · exact Nat.lt_of_lt_of_le (between.known id isOld) grown'.size

/-- An arena that operations have built from nothing, and the numbers that they handed out. -/
def IsBuilt (arena : Arena) (handed : List NodeId) : Prop := ∃ number, Run [] (empty number) handed arena

/-- **Arenas that are built from nothing** are acyclic, and whatever is done to them leaves their nodes as they
are. For every number that was handed out there is a node, and looking for its type ends, without a memo and
with any. -/
theorem IsBuilt.stays (built : arena.IsBuilt handed) :
    arena.Acyclic ∧
    (∀ handed' later, Run handed arena handed' later →
      ∀ id node, arena.get? id = some node → later.get? id = some node) ∧
    ∀ id ∈ handed, (∃ node, arena.get? id = some node) ∧
      (∀ ts, arena.Finds [id] ts ↔ ts = [arena.toTy id]) ∧
      ∀ memo ts later, Memo.Finds arena [id] memo ts later ↔
        ts = [(Memo.toTy arena id memo).1] ∧ later = (Memo.toTy arena id memo).2 := by
  obtain ⟨number, run⟩ := built
  have sound : arena.IsSound handed := (run.sound (isSound_empty number)).2
  refine ⟨sound.acyclic, fun handed' later further id node found => ?_, fun id member => ?_⟩
  · obtain ⟨grown, _⟩ := further.sound sound
    exact (grown.nodes id (lt_of_get? found)).trans found
  · have known : id < arena.size := sound.known id member
    refine ⟨get?_of_lt known, fun ts => ?_, fun memo ts later => ?_⟩
    · refine finds_iff sound.acyclic fun other isThis => ?_
      rw [List.mem_singleton.1 isThis]
      exact known
    · have ends := Memo.finds_toTy sound.acyclic known memo
      refine ⟨ends.unique, ?_⟩
      rintro ⟨rfl, rfl⟩
      exact ends

/-- A node for `A`; `[B, L[nil]]`, which is refused after the node for `B` was added; a node for `A?`; and a
copy of it in which `A` is called `C`. Nobody has the number of the node for `B`. -/
theorem IsBuilt.stays_refused :
    let a : TypeName := .topLevel ⟨26⟩
    let b : TypeName := .topLevel ⟨27⟩
    let c : TypeName := .topLevel ⟨28⟩
    let l : TypeName := .topLevel ⟨40⟩
    let refused : Ty := .tuple [.instanceOf b [], .aliasOf l [.nil]]
    let before := (refused.declare ((empty 0).push (.classInstance a []))).2.push (.optional 0)
    let arena := (Arena.mapNames (fun _ => pure c : TypeName → StateM Unit TypeName) 2 before ()).1.2
    before.IsBuilt [2, 0] ∧ arena.IsBuilt [4, 2, 0] ∧ arena.get? 1 = some (.classInstance b []) ∧
      arena.get? 2 = some (.optional 0) ∧
      arena.Finds [4] [.union [.instanceOf c [], .nil]] ∧
      Memo.Finds arena [4] .empty [.union [.instanceOf c [], .nil]] (Memo.toTy arena 4 .empty).2 := by
  intro a b c l refused before arena
  have first : Run [] (empty 0) [0] ((empty 0).push (.classInstance a [])) :=
    Run.start.step (@Becomes.alloc _ _ (.classInstance a []) (List.forall_mem_nil _))
  have second : Run [] (empty 0) [0] (refused.declare ((empty 0).push (.classInstance a []))).2 :=
    first.step (.declare refused)
  have third : Run [] (empty 0) [2, 0] before := second.step (.alloc (by decide))
  have last : Run [2, 0] before [4, 2, 0] arena :=
    Run.start.step (.mapNames _ () List.mem_cons_self)
  have built : arena.IsBuilt [4, 2, 0] := ⟨0, third.step (.mapNames _ () List.mem_cons_self)⟩
  obtain ⟨_, stays, _⟩ := IsBuilt.stays ⟨0, third⟩
  obtain ⟨_, ends, remembered⟩ := built.stays.2.2 4 List.mem_cons_self
  refine ⟨⟨0, third⟩, built, by decide, stays _ _ last 2 _ (by decide +kernel), ?_, ?_⟩
  · exact (ends _).2 (by decide +kernel)
  · exact (remembered _ _ _).2 ⟨by decide +kernel, rfl⟩

end Arena

end SignatureAlgebra
