/-
**Copies of trees in an arena.**

Copying the tree below a node adds nodes to the arena and leaves those that are there as they are. What the
copy is, and what the action that gives the names does, is the same as if one went through the tree itself:
the two run in step (`InStep`), and the tree below the new node is the one that going through the tree gives.

* `Arena.tree_of_extends` — the trees below nodes stay when nodes are added.
* `Arena.Copies` — an action on an arena in step with one on trees; `Arena.copies_layer`.
* `Arena.copiesTree_mapNames` — the statement for nodes.
-/
import SignatureAlgebra.Proofs.Conversion.RoundTrip
import SignatureAlgebra.Proofs.Declared.Traversal
import SignatureAlgebra.Proofs.InStep

namespace SignatureAlgebra

variable {α β γ δ : Type} {M : Type → Type} [Monad M]

/-! ### Trees of an arena that grows -/

namespace Arena

/-- **The trees below nodes stay** when nodes are added. -/
theorem tree_of_extends {arena later : Arena} (acyclic : arena.Acyclic) (grown : arena.Extends later)
    {id : NodeId} (known : id < arena.size) : later.tree id = arena.tree id := by
  induction id using Nat.strongRecOn with
  | ind id ih =>
    rw [tree_eq acyclic, tree_eq (grown.acyclic acyclic), grown.nodes id known]
    congr 1
    refine Declared.map_congr fun child isPart => ?_
    have smaller := acyclic.child_lt isPart
    exact ih child smaller (Nat.lt_trans smaller known)

/-- **An action on an arena in step with one on trees.** It only adds nodes to the arena, which itself starts
with the nodes of another one. -/
def Copies (start arena : Arena) (action : StateT Arena M α) (tree : M β) (post : α → β → Arena → Prop) : Prop :=
  InStep (fun reached b => start.Extends reached.2 ∧ arena.Extends reached.2 ∧ post reached.1 b reached.2)
    (action arena) tree

/-- An equation on the trees below some nodes, whatever nodes are added later. -/
abbrev Stands (arena : Arena) (ids : List NodeId) (equation : (NodeId → DeclaredTree) → Prop) : Prop :=
  arena.HoldsOf tree ids equation

variable {start arena : Arena}

namespace Copies

variable [LawfulMonad M]

theorem pure (origin : start.Extends arena) {a : α} {b : β} {post : α → β → Arena → Prop}
    (holds : post a b arena) : Copies start arena (pure a : StateT Arena M α) (pure b) post :=
  InStep.pure ⟨origin, Extends.refl arena, holds⟩

theorem imp {x : StateT Arena M α} {y : M β} {post post' : α → β → Arena → Prop}
    (copies : Copies start arena x y post) (weaker : ∀ a b later, post a b later → post' a b later) :
    Copies start arena x y post' :=
  InStep.imp copies fun reached b ⟨origin, grown, holds⟩ =>
    ⟨origin, grown, weaker reached.1 b reached.2 holds⟩

/-- An action that does not look at the arena. -/
theorem lift (origin : start.Extends arena) (x : M α) :
    Copies start arena (StateT.lift x) x fun a b later => later.Stands [] fun _ => a = b := by
  have step := (InStep.self x).bind (f := fun a => Pure.pure (a, arena)) (g := Pure.pure)
    (S := fun reached b => start.Extends reached.2 ∧ arena.Extends reached.2 ∧
      reached.2.Stands [] fun _ => reached.1 = b)
    fun a b same => InStep.pure ⟨origin, Extends.refl arena, nofun, fun _ _ _ => same⟩
  rwa [bind_pure] at step

/-- What holds after the first action still holds after the second one. -/
theorem bind {x : StateT Arena M α} {y : M β} {f : α → StateT Arena M γ} {g : β → M δ}
    {ids : α → List NodeId} {equation : α → β → (NodeId → DeclaredTree) → Prop}
    {post : γ → δ → Arena → Prop}
    (first : Copies start arena x y fun a b later => later.Stands (ids a) (equation a b))
    (next : ∀ (a : α) (b : β) (later : Arena), start.Extends later → later.Stands (ids a) (equation a b) →
      Copies start later (f a) (g b) fun c d last => last.Stands (ids a) (equation a b) → post c d last) :
    Copies start arena (x >>= f) (y >>= g) post := by
  refine InStep.bind first fun ⟨a, later⟩ b ⟨origin, grown, holds⟩ => ?_
  refine InStep.imp (next a b later origin holds) fun last d ⟨origin', grown', after⟩ => ?_
  exact ⟨origin', grown.trans grown', after (holds.mono grown')⟩

end Copies

/-- **An action that copies one place**, in every arena that starts with certain nodes: what it gives holds a
node, and with the tree below that node in its place this is what is given on trees. -/
def CopiesPlace (start : Arena) (place : β → NodeId) (change : (NodeId → DeclaredTree) → β → γ)
    (action : StateT Arena M β) (tree : M γ) : Prop :=
  ∀ arena, start.Extends arena → Copies start arena action tree fun b c later =>
    later.Stands [place b] fun read => change read b = c

/-- An action that copies a tree. -/
abbrev CopiesTree (start : Arena) (action : StateT Arena M NodeId) (tree : M DeclaredTree) : Prop :=
  CopiesPlace start (fun node => node) (fun read => read) action tree

section Containers

variable [LawfulMonad M] {place : β → NodeId} {change : (NodeId → DeclaredTree) → β → γ}

theorem copies_list {f : α → StateT Arena M β} {g : α → M γ} (as : List α)
    (each : ∀ a ∈ as, CopiesPlace start place change (f a) (g a)) (origin : start.Extends arena) :
    Copies start arena (as.mapM f) (as.mapM g) fun bs cs later =>
      later.Stands (bs.map place) fun read => bs.map (change read) = cs := by
  induction as generalizing arena with
  | nil => exact Copies.pure origin ⟨nofun, fun _ _ _ => rfl⟩
  | cons a rest ih =>
    rw [List.mapM_cons, List.mapM_cons]
    refine (each a List.mem_cons_self arena origin).bind fun b c later origin _ => ?_
    refine (ih (fun a member => each a (List.mem_cons_of_mem _ member)) origin).bind fun bs cs _ origin _ => ?_
    refine Copies.pure origin fun ofRest first => (first.append ofRest).imp (List.Subset.refl _) ?_
    rintro read ⟨rfl, rfl⟩
    rfl

variable {f : α → StateT Arena M NodeId} {g : α → M DeclaredTree}

theorem copiesPlace_param {p : DeclaredParam α} (copies : CopiesTree start (f p.type) (g p.type)) :
    CopiesPlace start DeclaredParam.type DeclaredParam.map (p.mapM f) (p.mapM g) := by
  intro arena origin
  refine (copies arena origin).bind fun id t _ origin _ => Copies.pure origin fun holds => ?_
  exact holds.imp (List.Subset.refl _) fun read same => congrArg (DeclaredParam.mk p.label) same

theorem copiesPlace_keyword {binding : Name × DeclaredParam α}
    (copies : CopiesTree start (f binding.2.type) (g binding.2.type)) :
    CopiesPlace start (fun binding => binding.2.type) (fun read binding => (binding.1, binding.2.map read))
      (DeclaredParams.mapKeywordM f binding) (DeclaredParams.mapKeywordM g binding) := by
  intro arena origin
  refine (copiesPlace_param copies arena origin).bind fun p q _ origin _ => Copies.pure origin fun holds => ?_
  exact holds.imp (List.Subset.refl _) fun read same => congrArg (Prod.mk binding.1) same

theorem copiesPlace_field {field : Literal × α} (copies : CopiesTree start (f field.2) (g field.2)) :
    CopiesPlace start Prod.snd (fun read field => (field.1, read field.2))
      (do return (field.1, ← f field.2)) (do return (field.1, ← g field.2)) := by
  intro arena origin
  refine (copies arena origin).bind fun id t _ origin _ => Copies.pure origin fun holds => ?_
  exact holds.imp (List.Subset.refl _) fun read same => congrArg (Prod.mk field.1) same

theorem copies_positionals (ps : List (DeclaredParam α))
    (each : ∀ a ∈ ps.map DeclaredParam.type, CopiesTree start (f a) (g a)) (origin : start.Extends arena) :
    Copies start arena (ps.mapM (DeclaredParam.mapM f)) (ps.mapM (DeclaredParam.mapM g)) fun ps qs later =>
      later.Stands (ps.map DeclaredParam.type) fun read => ps.map (DeclaredParam.map read) = qs :=
  copies_list ps (fun p member => copiesPlace_param (each p.type (List.mem_map_of_mem member))) origin

theorem copies_rest (o : Option (DeclaredParam α))
    (each : ∀ a ∈ o.toList.map DeclaredParam.type, CopiesTree start (f a) (g a))
    (origin : start.Extends arena) :
    Copies start arena (Params.mapRestM (DeclaredParam.mapM f) o) (Params.mapRestM (DeclaredParam.mapM g) o)
      fun p q later => later.Stands (p.toList.map DeclaredParam.type) fun read =>
        p.map (DeclaredParam.map read) = q := by
  cases o with
  | none => exact Copies.pure origin ⟨nofun, fun _ _ _ => rfl⟩
  | some p =>
    have single := copiesPlace_param (each p.type (by simp)) arena origin
    refine single.bind fun p q _ origin _ => Copies.pure origin fun holds => ?_
    exact holds.imp (List.Subset.refl _) fun read same => congrArg some same

theorem copies_keywords (ks : List (Name × DeclaredParam α))
    (each : ∀ a ∈ ks.map (·.2.type), CopiesTree start (f a) (g a)) (origin : start.Extends arena) :
    Copies start arena (ks.mapM (DeclaredParams.mapKeywordM f)) (ks.mapM (DeclaredParams.mapKeywordM g))
      fun ks ks' later => later.Stands (ks.map (·.2.type)) fun read =>
        (ks.map fun binding => (binding.1, binding.2.map read)) = ks' :=
  copies_list ks (fun binding member =>
    copiesPlace_keyword (each binding.2.type (List.mem_map.2 ⟨binding, member, rfl⟩))) origin

theorem copies_params (p : DeclaredParams α) (each : ∀ a ∈ p.toList, CopiesTree start (f a) (g a))
    (origin : start.Extends arena) :
    Copies start arena (p.mapM f) (p.mapM g) fun p q later =>
      later.Stands p.toList fun read => p.map read = q := by
  simp only [DeclaredParams.toList, List.mem_append, or_imp, forall_and] at each
  obtain ⟨⟨⟨⟨⟨⟨required, optional⟩, rest⟩, trailing⟩, names⟩, optionalNames⟩, restNames⟩ := each
  refine (copies_positionals _ required origin).bind fun _ _ _ origin _ => ?_
  refine (copies_positionals _ optional origin).bind fun _ _ _ origin _ => ?_
  refine (copies_rest _ rest origin).bind fun _ _ _ origin _ => ?_
  refine (copies_positionals _ trailing origin).bind fun _ _ _ origin _ => ?_
  refine (copies_keywords _ names origin).bind fun _ _ _ origin _ => ?_
  refine (copies_keywords _ optionalNames origin).bind fun _ _ _ origin _ => ?_
  refine (copies_rest _ restNames origin).bind fun _ _ _ origin _ => ?_
  refine Copies.pure origin fun restNames optionalNames names trailing rest optional required => ?_
  have all := (((((required.append optional).append rest).append trailing).append names).append
    optionalNames).append restNames
  refine all.imp (List.Subset.refl _) ?_
  rintro read ⟨⟨⟨⟨⟨⟨rfl, rfl⟩, rfl⟩, rfl⟩, rfl⟩, rfl⟩, rfl⟩
  rfl

theorem copies_function (fn : DeclaredFunction α) (each : ∀ a ∈ fn.toList, CopiesTree start (f a) (g a))
    (origin : start.Extends arena) :
    Copies start arena (fn.mapM f) (fn.mapM g) fun fn fn' later =>
      later.Stands fn.toList fun read => fn.map read = fn' := by
  have inParams : ∀ a ∈ fn.params.toList, CopiesTree start (f a) (g a) := fun a member =>
    each a (List.mem_append_left _ member)
  have inResult : CopiesTree start (f fn.result) (g fn.result) :=
    each fn.result (List.mem_append_right _ List.mem_cons_self)
  refine (copies_params fn.params inParams origin).bind fun _ _ later origin _ => ?_
  refine (inResult later origin).bind fun _ _ _ origin _ => Copies.pure origin fun result params => ?_
  refine (params.append result).imp (List.Subset.refl _) ?_
  rintro read ⟨rfl, rfl⟩
  rfl

theorem copies_trees (as : List α) (each : ∀ a ∈ as, CopiesTree start (f a) (g a))
    (origin : start.Extends arena) :
    Copies start arena (as.mapM f) (as.mapM g) fun ids ts later =>
      later.Stands ids fun read => ids.map read = ts :=
  (copies_list as each origin).imp fun ids _ _ holds => by rwa [List.map_id'] at holds

/-- **Copying the places of a layer**, with its type name changed. -/
theorem copies_layer (rename : TypeName → M TypeName) (d : Declared α)
    (each : ∀ a ∈ d.toList, CopiesTree start (f a) (g a)) (origin : start.Extends arena) :
    Copies start arena (d.traverse (fun name => StateT.lift (rename name)) f) (d.traverse rename g)
      fun d d' later => later.Stands d.toList fun read => d.map read = d' := by
  cases d with
  | singleton name =>
    refine (Copies.lift origin (rename name)).bind fun _ _ _ origin _ => Copies.pure origin fun holds => ?_
    exact holds.imp (List.Subset.refl _) fun _ same => congrArg Declared.singleton same
  | aliasRef name =>
    refine (Copies.lift origin (rename name)).bind fun _ _ _ origin _ => Copies.pure origin fun holds => ?_
    exact holds.imp (List.Subset.refl _) fun _ same => congrArg Declared.aliasRef same
  | classInstance name args =>
    refine (Copies.lift origin (rename name)).bind fun _ _ _ origin _ => ?_
    refine (copies_trees args each origin).bind fun _ _ _ origin _ => Copies.pure origin fun args name => ?_
    exact (name.append args).imp (List.Subset.refl _) fun _ same =>
      congrArg₂ Declared.classInstance same.1 same.2
  | interface name args =>
    refine (Copies.lift origin (rename name)).bind fun _ _ _ origin _ => ?_
    refine (copies_trees args each origin).bind fun _ _ _ origin _ => Copies.pure origin fun args name => ?_
    exact (name.append args).imp (List.Subset.refl _) fun _ same => congrArg₂ Declared.interface same.1 same.2
  | compound connective members =>
    refine (copies_trees members each origin).bind fun _ _ _ origin _ => Copies.pure origin fun holds => ?_
    exact holds.imp (List.Subset.refl _) fun _ same => congrArg (Declared.compound connective) same
  | optional inner =>
    refine (each inner List.mem_cons_self arena origin).bind fun _ _ _ origin _ => ?_
    refine Copies.pure origin fun holds => ?_
    exact holds.imp (List.Subset.refl _) fun _ same => congrArg Declared.optional same
  | tuple members =>
    refine (copies_trees members each origin).bind fun _ _ _ origin _ => Copies.pure origin fun holds => ?_
    exact holds.imp (List.Subset.refl _) fun _ same => congrArg Declared.tuple same
  | record fields =>
    have inFields := copies_list fields (fun field member =>
      copiesPlace_field (each field.2 (List.mem_map.2 ⟨field, member, rfl⟩))) origin
    refine inFields.bind fun _ _ _ origin _ => Copies.pure origin fun holds => ?_
    exact holds.imp (List.Subset.refl _) fun _ same => congrArg Declared.record same
  | proc fn =>
    refine (copies_function fn each origin).bind fun _ _ _ origin _ => Copies.pure origin fun holds => ?_
    exact holds.imp (List.Subset.refl _) fun _ same => congrArg Declared.proc same
  | _ => exact Copies.pure origin ⟨List.forall_mem_nil _, fun _ _ _ => rfl⟩

end Containers

/-! ### Copying the tree below a node -/

/-- Adding one node, over nodes that are there. -/
theorem copies_alloc [LawfulMonad M] {node : Declared NodeId} {d : Declared DeclaredTree}
    (origin : start.Extends arena) (below : arena.Stands node.toList fun read => node.map read = d) :
    Copies start arena (alloc (M := M) node) (pure ⟨d⟩) fun id t later =>
      later.Stands [id] fun read => read id = t := by
  have here : (arena.push node).get? arena.size = some node := get?_push_size arena node
  have isLast : arena.size < (arena.push node).size := by
    rw [size_push]
    exact Nat.lt_succ_self _
  have grown : arena.Extends (arena.push node) := extends_push below.known
  refine InStep.pure ⟨origin.trans grown, grown, ?_, ?_⟩
  · intro id member
    rw [List.mem_singleton.1 member]
    exact isLast
  · intro later further acyclic
    rw [tree_eq acyclic, further.nodes arena.size isLast, here]
    exact congrArg DeclaredTree.node (below.read later (grown.trans further) acyclic)

/-- What copying does to one node. -/
theorem mapNamesWithin_run [LawfulMonad M] (rename : TypeName → M TypeName) (depth : Nat) {id : NodeId}
    {arena : Arena} {node : Declared NodeId} (found : arena.get? id = some node) :
    mapNamesWithin rename (depth + 1) id arena =
      if node.isLeaf then pure (id, arena)
      else (node.traverse (fun name => StateT.lift (rename name)) (mapNamesWithin rename depth) >>= alloc)
        arena := by
  simp only [mapNamesWithin, bind, StateT.bind, get, getThe, MonadStateOf.get, StateT.get, pure_bind, found]
  split <;> rfl

theorem copiesTree_mapNamesWithin [LawfulMonad M] (rename : TypeName → M TypeName) (acyclic : start.Acyclic)
    {depth : Nat} {id : NodeId} (enough : id < depth) (known : id < start.size) :
    CopiesTree start (mapNamesWithin rename depth id) ((start.tree id).traverseNames rename) := by
  induction depth generalizing id with
  | zero => exact absurd enough (Nat.not_lt_zero id)
  | succ depth ih =>
    intro arena origin
    obtain ⟨node, found⟩ := get?_of_lt known
    have found' : arena.get? id = some node := (origin.nodes id known).trans found
    have isTree : start.tree id = ⟨node.map start.tree⟩ := by
      rw [tree_eq acyclic, found]
      rfl
    have below : ∀ child ∈ node.toList, CopiesTree start (mapNamesWithin rename depth child)
        ((start.tree child).traverseNames rename) := fun child isPart => by
      have smaller : child < id := acyclic id node found child isPart
      exact ih (Nat.lt_of_lt_of_le smaller (Nat.le_of_lt_succ enough)) (Nat.lt_trans smaller known)
    have through : (start.tree id).traverseNames rename =
        (node.traverse rename fun child => (start.tree child).traverseNames rename) >>= fun d => pure ⟨d⟩ := by
      rw [isTree, DeclaredTree.traverseNames_node, Declared.map_map, Declared.traverse_map]
      rfl
    show InStep _ (mapNamesWithin rename (depth + 1) id arena) _
    rw [mapNamesWithin_run rename depth found']
    by_cases leaf : node.isLeaf = true
    · -- Nothing can be renamed in a leaf: it is the tree itself, and stays so.
      have same : (start.tree id).traverseNames rename = pure (start.tree id) := by
        rw [isTree, DeclaredTree.traverseNames_of_isLeaf leaf]
      have stays : Copies start arena (pure id : StateT Arena M NodeId) (pure (start.tree id))
          fun id t later => later.Stands [id] fun read => read id = t := by
        refine Copies.pure origin ⟨?_, fun later grown _ => ?_⟩
        · intro id' member
          rw [List.mem_singleton.1 member]
          exact Nat.lt_of_lt_of_le known origin.size
        · exact tree_of_extends acyclic (origin.trans grown) known
      rw [if_pos leaf, same]
      exact stays
    · rw [if_neg leaf, through]
      have copied : Copies start arena
          (node.traverse (fun name => StateT.lift (rename name)) (mapNamesWithin rename depth) >>= alloc)
          ((node.traverse rename fun child => (start.tree child).traverseNames rename) >>= fun d => pure ⟨d⟩)
          fun id t later => later.Stands [id] fun read => read id = t := by
        refine (copies_layer rename node below origin).bind fun d d' later origin holds => ?_
        exact (copies_alloc origin holds).imp fun _ _ _ stands _ => stands
      exact copied

/-- **Copying the tree below a node** is going through the tree; what becomes of the copy is not changed by
later nodes. -/
theorem copiesTree_mapNames [LawfulMonad M] (rename : TypeName → M TypeName) (acyclic : start.Acyclic)
    {id : NodeId} (known : id < start.size) :
    CopiesTree start (mapNames rename id) ((start.tree id).traverseNames rename) := by
  unfold mapNames
  exact copiesTree_mapNamesWithin rename acyclic (Nat.lt_succ_self id) known

end Arena

end SignatureAlgebra
