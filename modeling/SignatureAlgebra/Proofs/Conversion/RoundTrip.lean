/-
**From types to declarations and back.**

Declaring a type adds its nodes, every node after those below it, and looking for the type of the last
one builds the declared type again. So the way back gives the type as its constructors build it, and
exactly the type if it is in normal form, as the types of nodes are.

What is known of the nodes added so far has to survive the nodes that are added later. So it is stated
for all later arenas at once: `Arena.Holds` is an equation on the types of some nodes that holds
whatever is added (`Arena.HoldsOf`, of whatever is read at nodes), and `Arena.Adds` an action that cannot
fail and leads to such an equation.

* `Arena.Extends`, `Arena.toTy_of_extends` — arenas that grow; the types of their nodes stay.
* `Arena.Adds.bind`, `Arena.adds_list`, `Arena.adds_layer` — adding nodes, one after the other.
* `Ty.declares_declare` — declaring a type.
* `Memo.Current` — what is remembered of an arena is right and will remain so.
* `Arena.toTy_declare` — the statement in both directions.
-/
import SignatureAlgebra.Proofs.Conversion.Memo
import SignatureAlgebra.Proofs.Conversion.Types

namespace SignatureAlgebra

variable {α β : Type}

/-! ### Arenas that grow -/

namespace Arena

/-- An arena that starts with the nodes of another one. -/
structure Extends (arena later : Arena) : Prop where
  id : later.id = arena.id
  size : arena.size ≤ later.size
  nodes : arena.IsStartOf later
  acyclic : arena.Acyclic → later.Acyclic

theorem Extends.refl (arena : Arena) : arena.Extends arena :=
  ⟨rfl, Nat.le_refl _, fun _ _ => rfl, fun acyclic => acyclic⟩

theorem Extends.trans {arena later last : Arena} (first : arena.Extends later)
    (second : later.Extends last) : arena.Extends last where
  id := second.id.trans first.id
  size := Nat.le_trans first.size second.size
  nodes id known :=
    (second.nodes id (Nat.lt_of_lt_of_le known first.size)).trans (first.nodes id known)
  acyclic acyclic := second.acyclic (first.acyclic acyclic)

theorem size_push (arena : Arena) (node : Declared NodeId) :
    (arena.push node).size = arena.size + 1 := Array.size_push node

theorem get?_push_size (arena : Arena) (node : Declared NodeId) :
    (arena.push node).get? arena.size = some node := by
  rw [get?, Arena.push, size, Array.getElem?_push, if_pos rfl]

theorem extends_push {arena : Arena} {node : Declared NodeId}
    (below : ∀ child ∈ node.toList, child < arena.size) : arena.Extends (arena.push node) where
  id := rfl
  size := by
    rw [size_push]
    exact Nat.le_succ _
  nodes id known := by
    have before : id ≠ arena.nodes.size := Nat.ne_of_lt known
    rw [get?, Arena.push, Array.getElem?_push, if_neg before]
    rfl
  acyclic acyclic := acyclic.push below

/-- **The types of nodes stay** when nodes are added. -/
theorem toTy_of_extends {arena later : Arena} (acyclic : arena.Acyclic) (grown : arena.Extends later)
    {id : NodeId} (known : id < arena.size) : later.toTy id = arena.toTy id := by
  induction id using Nat.strongRecOn with
  | ind id ih =>
    rw [toTy_eq acyclic, toTy_eq (grown.acyclic acyclic), grown.nodes id known]
    congr 1
    refine Declared.map_congr fun child isPart => ?_
    have smaller := acyclic.child_lt isPart
    exact ih child smaller (Nat.lt_trans smaller known)

/-! ### Adding nodes -/

/-- An equation on what some nodes of an arena are read as, whatever nodes are added to it later. -/
structure HoldsOf {γ : Type} (reading : Arena → NodeId → γ) (arena : Arena) (ids : List NodeId)
    (equation : (NodeId → γ) → Prop) : Prop where
  known : ∀ id ∈ ids, id < arena.size
  read : ∀ later, arena.Extends later → later.Acyclic → equation (reading later)

/-- An equation on the types of some nodes of an arena, whatever nodes are added to it later. -/
abbrev Holds (arena : Arena) (ids : List NodeId) (equation : (NodeId → Ty) → Prop) : Prop :=
  arena.HoldsOf toTy ids equation

namespace HoldsOf

variable {γ : Type} {reading : Arena → NodeId → γ} {arena later : Arena} {ids ids' : List NodeId}
  {equation equation' : (NodeId → γ) → Prop}

theorem mono (holds : arena.HoldsOf reading ids equation) (grown : arena.Extends later) :
    later.HoldsOf reading ids equation where
  known id member := Nat.lt_of_lt_of_le (holds.known id member) grown.size
  read last further := holds.read last (grown.trans further)

theorem imp (holds : arena.HoldsOf reading ids equation) (part : ids' ⊆ ids)
    (weaker : ∀ read, equation read → equation' read) : arena.HoldsOf reading ids' equation' where
  known id member := holds.known id (part member)
  read last further acyclic := weaker _ (holds.read last further acyclic)

theorem append (first : arena.HoldsOf reading ids equation) (second : arena.HoldsOf reading ids' equation') :
    arena.HoldsOf reading (ids ++ ids') fun read => equation read ∧ equation' read where
  known id member := (List.mem_append.1 member).elim (first.known id) (second.known id)
  read last further acyclic := ⟨first.read last further acyclic, second.read last further acyclic⟩

end HoldsOf

/-- **An action that only adds nodes** to an arena and does not fail. -/
def Adds (arena : Arena) (action : Declaring α) (post : α → Arena → Prop) : Prop :=
  ∃ v later, action arena = (.ok v, later) ∧ arena.Extends later ∧ post v later

namespace Adds

variable {arena : Arena}

theorem pure {v : α} {post : α → Arena → Prop} (holds : post v arena) :
    arena.Adds (pure v) post := ⟨v, arena, rfl, Extends.refl arena, holds⟩

theorem imp {x : Declaring α} {post post' : α → Arena → Prop} (adds : arena.Adds x post)
    (weaker : ∀ v later, post v later → post' v later) : arena.Adds x post' := by
  obtain ⟨v, later, run, grown, holds⟩ := adds
  exact ⟨v, later, run, grown, weaker v later holds⟩

/-- What holds after the first action still holds after the second one. -/
theorem bind {x : Declaring α} {f : α → Declaring β} {ids : α → List NodeId}
    {equation : α → (NodeId → Ty) → Prop} {post : β → Arena → Prop}
    (first : arena.Adds x fun v later => Holds later (ids v) (equation v))
    (next : ∀ (v : α) (later : Arena), later.Holds (ids v) (equation v) →
      later.Adds (f v) fun w last => Holds last (ids v) (equation v) → post w last) :
    arena.Adds (x >>= f) post := by
  obtain ⟨v, later, run, grown, holds⟩ := first
  obtain ⟨w, last, run', grown', reached⟩ := next v later holds
  refine ⟨w, last, ?_, grown.trans grown', reached (holds.mono grown')⟩
  show ExceptT.bindCont f (x arena).1 (x arena).2 = (.ok w, last)
  rw [run]
  exact run'

/-- An action in step with one that adds nodes adds these nodes. -/
theorem of_inStep {x : Declaring α} {y : Declaring β} {related : α → β → Prop} {post : β → Arena → Prop}
    {post' : α → Arena → Prop} (step : InStep related x y) (adds : arena.Adds y post)
    (weaker : ∀ v w later, related v w → post w later → post' v later) : arena.Adds x post' := by
  obtain ⟨w, later, run, grown, holds⟩ := adds
  obtain ⟨same, ⟨e, _, refused⟩ | ⟨v, w', given, given', holds'⟩⟩ := InStep.of_except step arena
  · rw [run] at refused
    cases refused
  · obtain rfl : w = w' := by
      rw [run] at given'
      exact Except.ok.inj given'
    rw [run] at same
    exact ⟨v, later, Prod.ext given same, grown, weaker v w later holds' holds⟩

end Adds

/-- An action that adds the nodes of a type and gives the last of them. -/
def Declares (action : Declaring NodeId) (t : Ty) : Prop :=
  ∀ arena : Arena, arena.Adds action fun id later => Holds later [id] fun read => read id = t

section Containers

variable {f : Ty → Declaring NodeId} {g : Ty → Ty}

theorem adds_list (ts : List Ty) (each : ∀ t ∈ ts, Declares (f t) (g t)) (arena : Arena) :
    arena.Adds (ts.mapM f) fun ids later => Holds later ids fun read => ids.map read = ts.map g := by
  induction ts generalizing arena with
  | nil => exact Adds.pure ⟨nofun, fun _ _ _ => rfl⟩
  | cons t rest ih =>
    rw [List.mapM_cons]
    refine (each t List.mem_cons_self arena).bind fun id later _ => ?_
    refine (ih (fun t member => each t (List.mem_cons_of_mem _ member)) later).bind fun ids last _ => ?_
    refine Adds.pure fun inRest first => (first.append inRest).imp (List.Subset.refl _) fun read both => ?_
    rw [List.map_cons, List.map_cons, both.1, both.2]

/-- **Adding the nodes below a layer.** -/
theorem adds_layer (s : Shape Ty) (each : ∀ t ∈ s.toList, Declares (f t) (g t)) (arena : Arena) :
    arena.Adds (s.mapM f) fun ids later =>
      Holds later ids.toList fun read => ids.map read = s.map g := by
  refine Adds.of_inStep (s.inStep_toList f) (adds_list s.toList each arena) ?_
  rintro layer _ later ⟨rfl, form⟩ holds
  refine holds.imp (List.Subset.refl _) fun read same => Shape.eq_of_form ?_ ?_
  · rw [Shape.map_map, Shape.map_map]
    exact form
  · rw [Shape.toList_map, Shape.toList_map, same]

end Containers

/-- Adding one node, over nodes that are there. -/
theorem adds_alloc {arena : Arena} {node : Declared NodeId}
    (below : ∀ child ∈ node.toList, child < arena.size) :
    arena.Adds (alloc (M := Id) node) fun id later =>
      Holds later [id] fun read => read id = (node.map read).toTy := by
  have here : (arena.push node).get? arena.size = some node := get?_push_size arena node
  have isLast : arena.size < (arena.push node).size := by
    rw [size_push]
    exact Nat.lt_succ_self _
  refine ⟨arena.size, arena.push node, rfl, extends_push below, ?_, ?_⟩
  · intro id member
    rw [List.mem_singleton.1 member]
    exact isLast
  · intro later grown acyclic
    rw [toTy_eq acyclic, grown.nodes arena.size isLast, here]
    rfl

end Arena

/-! ### Layers of types and their declarations -/

namespace Shape

theorem mapM_map {M : Type → Type} [Monad M] [LawfulMonad M] {γ : Type} (f : α → β) (g : β → M γ)
    (s : Shape α) : (s.map f).mapM g = s.mapM (g ∘ f) := by
  cases s with
  | proc params result =>
    have inRest : ∀ o : Option α, Params.mapRestM g (o.map f) = Params.mapRestM (g ∘ f) o := by
      intro o
      cases o <;> rfl
    have inParams : (params.map f).mapM g = params.mapM (g ∘ f) := by
      simp only [Params.mapM, Params.map, inRest, NameMap.mapM, NameMap.map, List.mapM_map]
      rfl
    rw [map, mapM, mapM, inParams]
    rfl
  | _ => simp only [mapM, map, List.mapM_map] <;> rfl

theorem toDeclared_map (f : α → β) (s : Shape α) : (s.map f).toDeclared = s.toDeclared.map f := by
  cases s with
  | applied head name args => cases head <;> rfl
  | proc params result =>
    have inRest : ∀ o : Option α, (o.map f).map DeclaredParam.anonymous =
        (o.map DeclaredParam.anonymous).map (DeclaredParam.map f) := by
      intro o
      cases o <;> rfl
    simp only [map, toDeclared, Declared.map, DeclaredFunction.map, DeclaredParams.map,
      DeclaredParams.ofParams, Params.map, NameMap.toList_map, List.map_map, inRest]
    rfl
  | _ => rfl

theorem map_type_anonymous (as : List α) :
    (as.map DeclaredParam.anonymous).map DeclaredParam.type = as := by
  rw [List.map_map]
  exact List.map_id as

/-- The places of a declared layer are places of the layer. -/
theorem mem_of_mem_toDeclared {s : Shape α} {a : α} (member : a ∈ s.toDeclared.toList) :
    a ∈ s.toList := by
  cases s with
  | applied head name args =>
    cases head with
    | ofAlias => cases member
    | _ => exact member
  | proc params result =>
    have inRest : ∀ o : Option α, (o.map DeclaredParam.anonymous).toList.map DeclaredParam.type =
        o.toList := by
      intro o
      cases o <;> rfl
    have inKeywords : ∀ m : NameMap α,
        (m.toList.map fun binding => (binding.1, DeclaredParam.anonymous binding.2)).map
          (·.2.type) = m.values := by
      intro m
      rw [List.map_map, NameMap.values, ← NameMap.map_snd_listFrom 0]
      rfl
    simp only [toDeclared, Declared.toList, DeclaredFunction.toList, DeclaredParams.toList,
      DeclaredParams.ofParams, inRest, inKeywords, map_type_anonymous, List.map_nil,
      List.append_nil] at member
    exact member
  | _ => exact member

/-- A parameter list that is declared is the one that is read again. -/
theorem toParams_ofParams (p : Params α) : (DeclaredParams.ofParams p).toParams = p := by
  have inRest : ∀ o : Option α, (o.map DeclaredParam.anonymous).map DeclaredParam.type = o := by
    intro o
    cases o <;> rfl
  have inKeywords : ∀ m : NameMap α,
      NameMap.ofList ((m.toList.map fun binding => (binding.1,
        DeclaredParam.anonymous binding.2)).map fun binding => (binding.1, binding.2.type)) = m := by
    intro m
    have same : (m.toList.map fun binding => (binding.1, DeclaredParam.anonymous binding.2)).map
        (fun binding => (binding.1, binding.2.type)) = m.toList := by
      rw [List.map_map]
      exact List.map_id m.toList
    rw [same, NameMap.ofList_toList]
  simp only [DeclaredParams.toParams, DeclaredParams.ofParams, map_type_anonymous, inRest, inKeywords]

/-- A declared layer stands for the layer as its constructors build it. -/
theorem toTy_toDeclared {s : Shape Ty} (plain : (⟨s⟩ : Ty).aliasArguments = []) :
    s.toDeclared.toTy = Replacement.identity.build s := by
  cases s with
  | applied head name args =>
    cases head with
    | ofAlias =>
      have none : args = [] := plain
      rw [none]
      rfl
    | _ => rfl
  | proc params result =>
    show Ty.proc (DeclaredParams.ofParams params).toParams result = .proc params result
    rw [toParams_ofParams]
  | _ => rfl

end Shape

/-! ### Declaring a type -/

namespace Ty

theorem declare_node {s : Shape Ty} (plain : (⟨s⟩ : Ty).aliasArguments = []) :
    declare ⟨s⟩ = (do
      let layer ← s.mapM declare
      Arena.alloc (M := Id) layer.toDeclared : Declaring NodeId) := by
  have layer : (s.map declare).mapM id = s.mapM declare := Shape.mapM_map declare id s
  have unfolded : declare ⟨s⟩ = Shape.declare (s.map declare) := fold_node _ s
  rw [unfolded, ← layer]
  cases s with
  | applied head name args =>
    cases head with
    | ofAlias =>
      have none : args = [] := plain
      rw [none]
      rfl
    | _ => rfl
  | _ => rfl

/-- **Declaring a type** in which no alias has arguments adds a node for the type that its constructors
build. -/
theorem declares_declare {t : Ty} (declarable : t.IsDeclarable) :
    Arena.Declares t.declare t.normalize := by
  induction t using Ty.induction with
  | step t ih =>
    obtain ⟨s⟩ := t
    intro arena
    have below : ∀ u ∈ s.toList, Arena.Declares u.declare u.normalize := fun u isPart =>
      ih u isPart (declarable.of_mem_children isPart)
    have plain : (⟨s⟩ : Ty).aliasArguments = [] := declarable.self
    rw [declare_node plain]
    refine (Arena.adds_layer s below arena).bind fun layer later holds => ?_
    have known : ∀ child ∈ layer.toDeclared.toList, child < later.size := fun child member =>
      holds.known child (Shape.mem_of_mem_toDeclared member)
    refine (Arena.adds_alloc known).imp fun id last node layer => ?_
    refine (node.append layer).imp (by simp) fun read equations => ?_
    obtain ⟨isNode, parts⟩ := equations
    have plain' : (⟨s.map normalize⟩ : Ty).aliasArguments = [] := by
      cases s with
      | applied head name args =>
        cases head with
        | ofAlias =>
          have none : args = [] := plain
          rw [none]
          rfl
        | _ => rfl
      | _ => rfl
    rw [isNode, ← Shape.toDeclared_map, parts, Shape.toTy_toDeclared plain']
    exact (replace_node _ s).symm

end Ty

/-! ### Remembered types of an arena that grows -/

namespace Memo

variable {arena later : Arena} {memo : Memo}

/-- **What is remembered of an arena** is the type of a node that is there. -/
def Current (arena : Arena) (memo : Memo) : Prop :=
  ∀ id t, memo.find? (arena.id, id) = some t → id < arena.size ∧ t = arena.toTy id

theorem current_empty (arena : Arena) : Current arena empty := nofun

theorem Current.coherent (current : Current arena memo) : Coherent arena memo :=
  fun id t found => (current id t found).2

/-- What is remembered stays right when nodes are added. -/
theorem Current.mono (current : Current arena memo) (acyclic : arena.Acyclic)
    (grown : arena.Extends later) : Current later memo := by
  intro id t found
  rw [grown.id] at found
  obtain ⟨known, right⟩ := current id t found
  refine ⟨Nat.lt_of_lt_of_le known grown.size, ?_⟩
  rw [right, Arena.toTy_of_extends acyclic grown known]

theorem Current.insert (current : Current arena memo) {id : NodeId} (known : id < arena.size) :
    Current arena (memo.insert (arena.id, id) (arena.toTy id)) := by
  intro id' t found
  have right := (current.coherent.insert id) id' t found
  rw [find?, Memo.insert, List.lookup_cons] at found
  by_cases same : id' = id
  · subst same
    exact ⟨known, right⟩
  · have other : ((arena.id, id') == (arena.id, id)) = false := by simpa using same
    rw [other] at found
    exact current id' t found

/-- Looking for the type of a node that is there remembers such types only. -/
theorem toTy_keeps_current (acyclic : arena.Acyclic) {id : NodeId} (known : id < arena.size) :
    Yields (Current arena) (toTy arena id) (arena.toTy id) :=
  toTyWithin_yields (· < arena.size) acyclic (fun _ current => current.coherent)
    (fun _ _ current known => current.insert known) Nat.lt_trans (Nat.lt_succ_self id) known

end Memo

/-! ### Both directions -/

/-- Declaring a type in which no alias has arguments, with what is known of the node. -/
theorem Ty.declare_run {t : Ty} (declarable : t.IsDeclarable) {arena : Arena}
    (acyclic : arena.Acyclic) :
    ∃ id later, t.declare arena = (.ok id, later) ∧ arena.Extends later ∧ id < later.size ∧
      later.toTy id = t.normalize := by
  obtain ⟨id, later, run, grown, holds⟩ := declares_declare declarable arena
  refine ⟨id, later, run, grown, holds.known id List.mem_cons_self, ?_⟩
  exact holds.read later (Arena.Extends.refl later) (grown.acyclic acyclic)

/-- **From types to declarations and back, and from nodes to types and back.** A type in which no alias
has arguments can be declared in any arena, and the type of its node is the type as its constructors
build it, also when it is looked for with a memo that was used before; that is the type itself if it is
in normal form. The type of any node is in normal form and no alias in it has arguments, so that it can
be declared in any arena and read back as it is. -/
theorem Arena.toTy_declare {arena : Arena} (acyclic : arena.Acyclic) :
    (∀ t : Ty, t.IsDeclarable → ∃ id later, t.declare arena = (.ok id, later) ∧
      later.toTy id = t.normalize ∧
      (∀ memo, Memo.Current arena memo → (Memo.toTy later id memo).1 = t.normalize) ∧
      (t.IsNormal → t.normalize = t)) ∧
    ∀ id, (arena.toTy id).IsNormal ∧ (arena.toTy id).IsDeclarable ∧
      (∀ memo, Memo.Current arena memo → (Memo.toTy arena id memo).1 = arena.toTy id) ∧
      ∀ other : Arena, other.Acyclic → ∃ id' later,
        (arena.toTy id).declare other = (.ok id', later) ∧ later.toTy id' = arena.toTy id ∧
        ∀ memo, Memo.Current other memo → (Memo.toTy later id' memo).1 = arena.toTy id := by
  have declared : ∀ {start : Arena} {t : Ty}, start.Acyclic → t.IsDeclarable →
      ∃ id later, t.declare start = (.ok id, later) ∧ later.toTy id = t.normalize ∧
        ∀ memo, Memo.Current start memo → (Memo.toTy later id memo).1 = t.normalize := by
    intro start t acyclic declarable
    obtain ⟨id, later, run, grown, known, reads⟩ := t.declare_run declarable acyclic
    refine ⟨id, later, run, reads, fun memo current => ?_⟩
    have remembered := Memo.toTy_keeps_current (grown.acyclic acyclic) known
    rw [(remembered memo (current.mono acyclic grown)).1, reads]
  constructor
  · intro t declarable
    obtain ⟨id, later, run, reads, remembered⟩ := declared acyclic declarable
    exact ⟨id, later, run, reads, remembered, Ty.normalize_eq_self⟩
  · intro id
    have normal := arena.isNormal_toTy id
    refine ⟨normal, arena.isDeclarable_toTy id, fun memo current => ?_, fun other acyclic' => ?_⟩
    · exact (Memo.toTy_yields acyclic id memo current.coherent).1
    · obtain ⟨id', later, run, reads, remembered⟩ := declared acyclic' (arena.isDeclarable_toTy id)
      rw [Ty.normalize_eq_self normal] at reads remembered
      exact ⟨id', later, run, reads, remembered⟩

/-- A function type in which a union is not flat and has a member twice:
`(T, ?((T | nil) | nil), a: untyped) -> self`. -/
def Ty.ofNested : Ty :=
  let raw : Ty := ⟨.compound .union [⟨.compound .union [.var ⟨26⟩, .nil]⟩, .nil]⟩
  .proc { Params.empty with
    required := [.var ⟨26⟩]
    optional := [raw]
    keywords := .ofList [(⟨27⟩, .any)] } .selfType

theorem Arena.toTy_declare_nested :
    let arena : Arena := ((Arena.empty 0).push (.var ⟨26⟩)).push (.optional 0)
    let memo := (Memo.toTy arena 1 .empty).2
    arena.Acyclic ∧ Ty.ofNested.IsDeclarable ∧ Memo.Current arena memo ∧
      ∃ id later, Ty.ofNested.declare arena = (.ok id, later) ∧
        later.toTy id = Ty.ofNested.normalize ∧
        (Memo.toTy later id memo).1 = Ty.ofNested.normalize ∧
        Ty.ofNested.normalize ≠ Ty.ofNested := by
  intro arena memo
  have acyclic : arena.Acyclic := ((acyclic_empty 0).push (by decide)).push (by decide)
  have declarable : Ty.ofNested.IsDeclarable := by decide
  have current : Memo.Current arena memo :=
    (Memo.toTy_keeps_current acyclic (by decide) .empty (Memo.current_empty arena)).2
  obtain ⟨id, later, run, reads, remembered, _⟩ := (toTy_declare acyclic).1 Ty.ofNested declarable
  exact ⟨acyclic, declarable, current, id, later, run, reads, remembered memo current, by decide⟩

end SignatureAlgebra
