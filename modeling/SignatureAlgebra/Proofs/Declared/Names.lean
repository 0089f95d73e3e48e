/-
**The type names of a tree in reading order.**

A name comes before the names below it, and what stands at the places of a layer is read from first to last:
the required parameters of a function before the optional ones, then its rest, the trailing ones, the keywords
that have to be there, those that may, the other keywords, and its result. A tree is known by its names in
this order and by its outline, which is all else: labels, keywords, keys, and what stands where.

Going through a tree with an action on names asks for each name once, in this order, and gives the tree of the
same outline with the answers for names.

* `DeclaredTree.names`, `DeclaredTree.outline` — what a tree is known by; `DeclaredTree.eq_of_outline`.
* `DeclaredTree.inStep_traverseNames` — going through a tree is going through its names.
* `Arena.mapNames_renames` — copying a node or a function with an action on names.
-/
import SignatureAlgebra.Proofs.Conversion.RenamedNames
import SignatureAlgebra.Proofs.Declared.Places

namespace SignatureAlgebra

variable {α β : Type}

/-! ### Names and outline -/

namespace Declared

theorem typeName?_map (f : α → β) (d : Declared α) : (d.map f).typeName? = d.typeName? := by cases d <;> rfl

theorem typeName?_mapName (f : TypeName → TypeName) (d : Declared α) :
    (d.mapName f).typeName? = d.typeName?.map f := by cases d <;> rfl

theorem toList_mapName (f : TypeName → TypeName) (d : Declared α) : (d.mapName f).toList = d.toList := by
  cases d <;> rfl

theorem mapName_mapName (f g : TypeName → TypeName) (d : Declared α) :
    (d.mapName f).mapName g = d.mapName (g ∘ f) := by cases d <;> rfl

theorem outline_map (f : α → β) (d : Declared α) : (d.map f).outline = d.outline :=
  congrArg (mapName fun _ => default) (d.form_map f)

theorem outline_mapName (f : TypeName → TypeName) (d : Declared α) : (d.mapName f).outline = d.outline := by
  rw [outline, map_mapName, mapName_mapName]
  rfl

theorem typeName?_outline (d : Declared α) : d.outline.typeName? = d.typeName?.map fun _ => default := by
  rw [outline, typeName?_mapName, typeName?_map]

end Declared

namespace DeclaredTree

/-- **The type names in a tree**, in reading order, each as often as it occurs. -/
def names (t : DeclaredTree) : List TypeName := t.fold fun d => d.typeName?.toList ++ d.toList.flatten

theorem names_node (d : Declared DeclaredTree) :
    names ⟨d⟩ = d.typeName?.toList ++ d.toList.flatMap names := by
  rw [names, fold_node, Declared.typeName?_map, Declared.toList_map]
  rfl

/-- **All of a tree but its names.** -/
def outline (t : DeclaredTree) : DeclaredTree := t.mapNames fun _ => default

theorem names_mapNames (f : TypeName → TypeName) (t : DeclaredTree) :
    (t.mapNames f).names = t.names.map f := by
  induction t using induction with
  | step d ih =>
    rw [mapNames_node, names_node, names_node, Declared.typeName?_mapName, Declared.toList_mapName,
      Declared.typeName?_map, Declared.toList_map, List.map_append, List.map_flatMap, List.flatMap_map]
    congr 1
    · cases d.typeName? <;> rfl
    · exact List.flatMap_congr ih

/-- Trees have one outline if their layers have, and if those below have. -/
theorem outline_node_iff {d d' : Declared DeclaredTree} :
    outline ⟨d⟩ = outline ⟨d'⟩ ↔ d.outline = d'.outline ∧ d.toList.map outline = d'.toList.map outline := by
  have layer : ∀ e : Declared DeclaredTree, outline ⟨e⟩ = ⟨(e.map outline).mapName fun _ => default⟩ :=
    mapNames_node _
  rw [layer, layer, node.injEq]
  constructor
  · intro same
    have here := congrArg Declared.outline same
    have below := congrArg Declared.toList same
    rw [Declared.outline_mapName, Declared.outline_mapName, Declared.outline_map,
      Declared.outline_map] at here
    rw [Declared.toList_mapName, Declared.toList_mapName, Declared.toList_map, Declared.toList_map] at below
    exact ⟨here, below⟩
  · rintro ⟨here, below⟩
    apply Declared.eq_of_outline
    · rwa [Declared.outline_mapName, Declared.outline_mapName, Declared.outline_map, Declared.outline_map]
    · rw [Declared.typeName?_mapName, Declared.typeName?_mapName, Declared.typeName?_map,
        Declared.typeName?_map, ← Declared.typeName?_outline, here, Declared.typeName?_outline]
    · rwa [Declared.toList_mapName, Declared.toList_mapName, Declared.toList_map, Declared.toList_map]

/-- Trees of one outline have as many names. -/
theorem length_names {t t' : DeclaredTree} (outline : t.outline = t'.outline) :
    t.names.length = t'.names.length := by
  have mapped : ∀ u : DeclaredTree, u.outline.names.length = u.names.length := fun u => by
    rw [DeclaredTree.outline, names_mapNames, List.length_map]
  rw [← mapped t, ← mapped t', outline]

/-- Lists of trees of the same outlines with the same names, if that is known to make each tree the same. -/
theorem eq_of_outlines {ts ts' : List DeclaredTree}
    (known : ∀ t ∈ ts, ∀ t', t.outline = t'.outline → t.names = t'.names → t = t')
    (outlines : ts.map outline = ts'.map outline) (names : ts.flatMap names = ts'.flatMap names) :
    ts = ts' := by
  induction ts generalizing ts' with
  | nil => exact (List.map_eq_nil_iff.1 outlines.symm).symm
  | cons t rest ih =>
    cases ts' with
    | nil => cases outlines
    | cons t' rest' =>
      obtain ⟨outline, outlines⟩ := List.cons.inj outlines
      rw [List.flatMap_cons, List.flatMap_cons] at names
      obtain ⟨here, names⟩ := List.append_inj names (length_names outline)
      rw [known t List.mem_cons_self t' outline here,
        ih (fun u member => known u (List.mem_cons_of_mem _ member)) outlines names]

/-- **A tree is known by its outline and its names.** -/
theorem eq_of_outline {t t' : DeclaredTree} (outline : t.outline = t'.outline) (names : t.names = t'.names) :
    t = t' := by
  induction t using induction generalizing t' with
  | step d ih =>
    obtain ⟨d'⟩ := t'
    obtain ⟨here, below⟩ := outline_node_iff.1 outline
    have length : d.typeName?.toList.length = d'.typeName?.toList.length := by
      have alike := congrArg Declared.typeName? here
      rw [Declared.typeName?_outline, Declared.typeName?_outline] at alike
      cases first : d.typeName? <;> cases second : d'.typeName? <;> simp_all
    rw [names_node, names_node] at names
    obtain ⟨name, names⟩ := List.append_inj names length
    have called : d.typeName? = d'.typeName? := by simpa using congrArg List.head? name
    have places : d.toList = d'.toList := eq_of_outlines (fun t isPart t' => ih t isPart) below names
    exact congrArg node (Declared.eq_of_outline here called places)

/-! ### Going through a tree -/

section Going

variable {M : Type → Type} [Monad M] [LawfulMonad M]

theorem inStep_traverseNames_list (rename : TypeName → M TypeName) (ts : List DeclaredTree)
    (each : ∀ t ∈ ts, InStep (fun t' new => t'.outline = t.outline ∧ t'.names = new)
      (t.traverseNames rename) (t.names.mapM rename)) :
    InStep (fun ts' new => ts'.map outline = ts.map outline ∧ ts'.flatMap names = new)
      (ts.mapM (traverseNames rename)) ((ts.flatMap names).mapM rename) := by
  induction ts with
  | nil => exact InStep.pure ⟨rfl, rfl⟩
  | cons t rest ih =>
    rw [List.mapM_cons, List.flatMap_cons, List.mapM_append]
    refine (each t List.mem_cons_self).bind fun t' new first => ?_
    refine (ih fun u member => each u (List.mem_cons_of_mem _ member)).bind fun ts' more inRest => ?_
    refine InStep.pure ⟨?_, ?_⟩
    · rw [List.map_cons, List.map_cons, first.1, inRest.1]
    · rw [List.flatMap_cons, first.2, inRest.2]

end Going

/-- **Going through a tree** asks for each of its names once, in reading order, and gives the tree of the same
outline with the answers for names. -/
theorem inStep_traverseNames {σ : Type} (rename : TypeName → StateM σ TypeName) (t : DeclaredTree) :
    InStep (fun t' new => t'.outline = t.outline ∧ t'.names = new) (t.traverseNames rename)
      (t.names.mapM rename) := by
  induction t using induction with
  | step d ih =>
    have through : traverseNames rename ⟨d⟩ =
        d.renameM rename >>= fun d => d.mapM (traverseNames rename) >>= fun d => pure ⟨d⟩ := by
      rw [traverseNames_node, Declared.traverse_map, Declared.traverse_eq, bind_assoc]
      rfl
    rw [through, names_node, List.mapM_append]
    refine (d.inStep_renameM rename).bind fun d₁ new renamed => ?_
    obtain ⟨rfl, places, outline⟩ := renamed
    have below := (d₁.inStep_toList (traverseNames rename)).trans
      (inStep_traverseNames_list rename d₁.toList fun t isPart => ih t (places ▸ isPart))
    rw [places] at below
    refine below.bind fun d₂ more filled => InStep.pure ?_
    obtain ⟨ts, ⟨rfl, form⟩, outlines, rfl⟩ := filled
    have same : d₂.outline = d₁.outline := by
      rw [Declared.outline, Declared.outline, form]
    have called : d₂.typeName? = d₁.typeName? := by
      rw [← Declared.typeName?_map (fun _ => ()), form, Declared.typeName?_map]
    refine ⟨outline_node_iff.2 ⟨same.trans outline, outlines⟩, ?_⟩
    rw [names_node, called]

/-- **The tree that a tree becomes with some answers for its names**: the one of the same outline that has
the answers where the names were. -/
def IsRenamed (t : DeclaredTree) (answers : List TypeName) (copy : DeclaredTree) : Prop :=
  ∀ u : DeclaredTree, u = copy ↔ u.outline = t.outline ∧ u.names = answers

theorem isRenamed_of_outline {t copy : DeclaredTree} (outline : copy.outline = t.outline) :
    t.IsRenamed copy.names copy := by
  intro u
  constructor
  · rintro rfl
    exact ⟨outline, rfl⟩
  · rintro ⟨outline', names⟩
    exact eq_of_outline (outline'.trans outline.symm) names

end DeclaredTree

/-! ### Copies in an arena -/

namespace Arena

/-- A function with everything below it. -/
def functionTree (arena : Arena) (fn : DeclaredFunction NodeId) : DeclaredTree :=
  ⟨.proc (fn.map arena.tree)⟩

/-- **What copying with other names has to do**, started with a state of the action that gives the names: it
asks for each name in a tree once, in reading order, and adds nodes for the tree with the answers for names;
`read` is the tree that a copy stands for. -/
def Renames {σ : Type} (arena : Arena) (rename : TypeName → StateM σ TypeName) (t : DeclaredTree)
    (read : α → Arena → DeclaredTree) (copying : StateT Arena (StateM σ) α) (s : σ) : Prop :=
  ∃ copy later answers s', copying arena s = ((copy, later), s') ∧
    t.names.mapM rename s = (answers, s') ∧ t.IsRenamed answers (read copy later) ∧
    ∀ id node, arena.get? id = some node → later.get? id = some node

variable {arena : Arena} {σ : Type} {rename : TypeName → StateM σ TypeName}

theorem renames_of_copies {t : DeclaredTree} {read : α → Arena → DeclaredTree}
    {copying : StateT Arena (StateM σ) α}
    (copies : Copies arena arena copying (t.traverseNames rename) fun copy t' later =>
      read copy later = t') (s : σ) : arena.Renames rename t read copying s := by
  obtain ⟨⟨t', ⟨_, grown, rfl⟩, outline, answered⟩, same⟩ :=
    InStep.state_iff.1 (InStep.trans copies (t.inStep_traverseNames rename)) s
  refine ⟨_, _, _, _, rfl, Prod.ext answered.symm same.symm, DeclaredTree.isRenamed_of_outline outline, ?_⟩
  intro id node found
  exact (grown.nodes id (lt_of_get? found)).trans found

/-- **Copying a node or a function with other names** asks for each name below it once, in reading order, and
gives the tree with the answers for names, everything else as it was; no node that is there changes. -/
theorem mapNames_renames (acyclic : arena.Acyclic) {σ : Type} (rename : TypeName → StateM σ TypeName) (s : σ) :
    (∀ id, id < arena.size →
      arena.Renames rename (arena.tree id) (fun copy later => later.tree copy) (mapNames rename id) s) ∧
    ∀ fn : DeclaredFunction NodeId, (∀ id ∈ fn.toList, id < arena.size) →
      arena.Renames rename (arena.functionTree fn) (fun copy later => later.functionTree copy)
        (mapFunctionNames rename fn) s := by
  have node : ∀ id, id < arena.size →
      CopiesTree arena (mapNames rename id) ((arena.tree id).traverseNames rename) := fun id known =>
    copiesTree_mapNames rename acyclic known
  constructor
  · intro id known
    refine renames_of_copies (InStep.imp (node id known arena (Extends.refl arena)) ?_) s
    rintro reached t ⟨origin, grown, stands⟩
    exact ⟨origin, grown, stands.read _ (Extends.refl _) (grown.acyclic acyclic)⟩
  · intro fn known
    have copied : Copies arena arena (mapFunctionNames rename fn)
        ((fn.mapM fun id => (arena.tree id).traverseNames rename) >>=
          fun fn => pure (DeclaredTree.node (.proc fn)))
        fun fn t later => later.Stands fn.toList fun read => DeclaredTree.node (.proc (fn.map read)) = t := by
      have places := copies_function fn (fun id isPart => node id (known id isPart)) (Extends.refl arena)
      rw [← bind_pure (mapFunctionNames rename fn)]
      exact places.bind fun _ _ _ origin _ => Copies.pure origin fun stands =>
        stands.imp (List.Subset.refl _) fun _ same => congrArg (fun fn => DeclaredTree.node (.proc fn)) same
    have through : (arena.functionTree fn).traverseNames rename =
        (fn.mapM fun id => (arena.tree id).traverseNames rename) >>=
          fun fn => pure (DeclaredTree.node (.proc fn)) := by
      rw [functionTree, DeclaredTree.traverseNames_node, Declared.traverse_map]
      show ((Declared.proc fn).map arena.tree).traverse rename (DeclaredTree.traverseNames rename) >>= _ = _
      rw [Declared.traverse_map]
      rfl
    refine renames_of_copies ?_ s
    rw [through]
    refine InStep.imp copied ?_
    rintro reached t ⟨origin, grown, stands⟩
    exact ⟨origin, grown, stands.read _ (Extends.refl _) (grown.acyclic acyclic)⟩

/-- An action that numbers the names it is asked for: `^(A?, ?k: B) -> A` becomes `^(A, ?k: B') -> A''`, where
the node of `A` is one and counts twice. -/
theorem mapNames_renames_numbered :
    let a : TypeName := .topLevel ⟨26⟩
    let b : TypeName := .topLevel ⟨40⟩
    let fn : DeclaredFunction NodeId :=
      ⟨{ DeclaredParams.empty with
        required := [.anonymous 1]
        optionalKeywords := [(⟨30⟩, ⟨some ⟨31⟩, 2⟩)] }, 0⟩
    let arena : Arena := ((((Arena.empty 0).push (.classInstance a [])).push (.optional 0)).push
      (.singleton b)).push (.proc fn)
    let number : TypeName → StateM Nat TypeName := fun name n =>
      ({ name with name := ⟨name.name.index + n⟩ }, n + 1)
    let answers : List TypeName := [.topLevel ⟨26⟩, .topLevel ⟨41⟩, .topLevel ⟨28⟩]
    arena.Acyclic ∧ 3 < arena.size ∧ (∀ id ∈ fn.toList, id < arena.size) ∧
      (∃ copy later, mapNames number 3 arena 0 = ((copy, later), 3) ∧ (later.tree copy).names = answers) ∧
      ∃ copy later, mapFunctionNames number fn arena 0 = ((copy, later), 3) ∧
        (later.functionTree copy).names = answers := by
  intro a b fn arena number answers
  have acyclic : arena.Acyclic :=
    ((((acyclic_empty 0).push (by decide)).push (by decide)).push (by decide)).push (by decide)
  obtain ⟨ofNode, ofFunction⟩ := mapNames_renames acyclic number 0
  have names : (arena.tree 3).names = [a, b, a] := by decide +kernel
  have names' : (arena.functionTree fn).names = [a, b, a] := by decide +kernel
  refine ⟨acyclic, by decide, by decide, ?_, ?_⟩
  · obtain ⟨copy, later, given, s', run, asked, renamed, _⟩ := ofNode 3 (by decide)
    rw [names] at asked
    have same : (given, s') = (answers, 3) := asked.symm.trans rfl
    obtain ⟨rfl, rfl⟩ := Prod.mk.inj same
    exact ⟨copy, later, run, ((renamed _).1 rfl).2⟩
  · obtain ⟨copy, later, given, s', run, asked, renamed, _⟩ := ofFunction fn (by decide)
    rw [names'] at asked
    have same : (given, s') = (answers, 3) := asked.symm.trans rfl
    obtain ⟨rfl, rfl⟩ := Prod.mk.inj same
    exact ⟨copy, later, run, ((renamed _).1 rfl).2⟩

end Arena

end SignatureAlgebra
