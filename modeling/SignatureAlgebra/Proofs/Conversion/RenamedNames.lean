/-
**Other type names, before and after turning nodes into types.**

Nodes are turned into types by connecting members, which merges those that are equal. Other type names may
make members equal that were different, at any depth, and merging does not mind in which order it is done:
what is merged before has the same name afterwards, and what has the same name only afterwards is merged
then. No name is one of the words that absorb other members or add nothing.

* `Replacement.isSolid_ofTypeNames` — other type names are solid.
* `Declared.toTy_mapName`, `DeclaredTree.toTy_renamed` — the types of layers and trees with other names.
* `Arena.toTy_mapNames` — the statement for nodes.
-/
import SignatureAlgebra.Proofs.Conversion.Copying
import SignatureAlgebra.Proofs.Ty.Composition

namespace SignatureAlgebra

variable {α β : Type} {f : TypeName → TypeName}

namespace Replacement

theorem isNormal_ofTypeNames (f : TypeName → TypeName) : (ofTypeNames f).IsNormal where
  var := isNormal_identity.var
  placeholder := isNormal_identity.placeholder

theorem isSolid_ofTypeNames (f : TypeName → TypeName) : (ofTypeNames f).IsSolid where
  var _ := ⟨nofun, nofun, nofun⟩
  placeholder _ := ⟨nofun, nofun, nofun⟩

end Replacement

theorem Ty.renameTypes_combine {c : Connective} {ts : List Ty} (normal : ∀ t ∈ ts, t.IsNormal) :
    (combine c ts).renameTypes f = combine c (ts.map (renameTypes f)) :=
  replace_combine_of_solid (Replacement.isNormal_ofTypeNames f) (Replacement.isSolid_ofTypeNames f) normal

/-- Changed types are at the same positions and keywords. -/
theorem DeclaredParams.toParams_map (g : α → β) (p : DeclaredParams α) :
    (p.map g).toParams = p.toParams.map g := by
  have inKeywords : ∀ ks : List (Name × DeclaredParam α),
      NameMap.ofList (ks.map fun binding => (binding.1, g binding.2.type)) =
        (NameMap.ofList (ks.map fun binding => (binding.1, binding.2.type))).map g := by
    intro ks
    rw [← NameMap.ofList_map, List.map_map]
    rfl
  have param : DeclaredParam.type ∘ DeclaredParam.map g = g ∘ DeclaredParam.type := rfl
  simp only [toParams, map, Params.map, List.map_map, Option.map_map, param, ← inKeywords]
  rfl

/-- **The type of a layer with another type name** is the renamed type, over renamed types. -/
theorem Declared.toTy_mapName {d : Declared Ty} (normal : ∀ t ∈ d.toList, t.IsNormal) :
    ((d.map (Ty.renameTypes f)).mapName f).toTy = d.toTy.renameTypes f := by
  cases d with
  | compound c members => exact (Ty.renameTypes_combine normal).symm
  | optional inner =>
    have normal' : ∀ t ∈ [inner, .nil], t.IsNormal :=
      List.forall_mem_cons.2 ⟨normal inner List.mem_cons_self, List.forall_mem_cons.2
        ⟨Ty.isNormal_of_children trivial rfl, List.forall_mem_nil _⟩⟩
    exact (Ty.renameTypes_combine normal').symm
  | proc fn =>
    show Ty.proc (fn.params.map (Ty.renameTypes f)).toParams (fn.result.renameTypes f) = _
    rw [DeclaredParams.toParams_map]
    exact (Ty.replace_node (.ofTypeNames f) (.proc fn.params.toParams fn.result)).symm
  | _ =>
    symm
    show Ty.replace (.ofTypeNames f) ⟨_⟩ = _
    rw [Ty.replace_node]
    rfl

/-- **The type of a tree with other type names** is the renamed type. -/
theorem DeclaredTree.toTy_renamed (f : TypeName → TypeName) (t : DeclaredTree) :
    (t.mapNames f).toTy = t.toTy.renameTypes f := by
  induction t using induction with
  | step d ih =>
    have below : d.map (toTy ∘ mapNames f) = d.map (Ty.renameTypes f ∘ toTy) := Declared.map_congr ih
    have normal : ∀ t ∈ (d.map toTy).toList, t.IsNormal := by
      intro t isPart
      rw [Declared.toList_map] at isPart
      obtain ⟨tree, _, rfl⟩ := List.mem_map.1 isPart
      exact tree.isNormal_toTy
    have left : toTy (mapNames f ⟨d⟩) = ((d.map (toTy ∘ mapNames f)).mapName f).toTy := by
      rw [mapNames_node, toTy, fold_node, Declared.map_mapName, Declared.map_map]
      rfl
    have right : toTy ⟨d⟩ = (d.map toTy).toTy := fold_node _ d
    rw [left, below, ← Declared.map_map, Declared.toTy_mapName normal, right]

/-! ### Nodes -/

/-- Copying without an effect, once it is done. -/
theorem Arena.Copies.of_id {start arena : Arena} {action : StateT Arena Id α} {tree : Id β}
    {post : α → β → Arena → Prop} (copies : Copies start arena action tree post) :
    arena.Extends (action arena).2 ∧ post (action arena).1 tree (action arena).2 := by
  obtain ⟨both, left, right⟩ := copies
  obtain ⟨_, grown, holds⟩ := Subtype.property both.run
  rw [← left, ← right]
  exact ⟨grown, holds⟩

/-- **Other type names, before and after turning a node into a type.** The copy of a node with other type
names stands for the type of the node with the other names, built again; also when it is looked for with a
memo that was used before. -/
theorem Arena.toTy_mapNames {arena : Arena} (acyclic : arena.Acyclic) {id : NodeId} (known : id < arena.size)
    (f : TypeName → TypeName) :
    let copied := Id.run (Arena.mapNames (M := Id) f id arena)
    copied.2.toTy copied.1 = (arena.toTy id).renameTypes f ∧
      ∀ memo, Memo.Current arena memo →
        (Memo.toTy copied.2 copied.1 memo).1 = (Memo.toTy arena id memo).1.renameTypes f := by
  intro copied
  obtain ⟨grown, stands⟩ := Copies.of_id
    (copiesTree_mapNames (M := Id) f acyclic known arena (Extends.refl arena))
  have acyclic' : copied.2.Acyclic := grown.acyclic acyclic
  have isTree : copied.2.tree copied.1 = (arena.tree id).mapNames f :=
    (stands.read copied.2 (Extends.refl _) acyclic').trans ((arena.tree id).traverseNames_pure (M := Id) f)
  have translated : copied.2.toTy copied.1 = (arena.toTy id).renameTypes f := by
    rw [toTy, isTree, DeclaredTree.toTy_renamed]
    rfl
  have there : copied.1 < copied.2.size := stands.known copied.1 List.mem_cons_self
  refine ⟨translated, fun memo current => ?_⟩
  rw [(Memo.toTy_keeps_current acyclic' there memo (current.mono acyclic grown)).1,
    (Memo.toTy_keeps_current acyclic known memo current).1, translated]

/-- In `A | B? | A` the names `A` and `B` become one: `A?` is left. -/
theorem Arena.toTy_mapNames_merging :
    let a : TypeName := .topLevel ⟨26⟩
    let b : TypeName := .topLevel ⟨27⟩
    let arena : Arena := ((((Arena.empty 0).push (.classInstance a [])).push (.classInstance b [])).push
      (.optional 1)).push (.compound .union [0, 2, 0])
    let copied := Id.run (Arena.mapNames (M := Id) (fun _ => a) 3 arena)
    arena.Acyclic ∧ 3 < arena.size ∧ Memo.Current arena .empty ∧
      arena.toTy 3 = ⟨.compound .union [.instanceOf a [], .instanceOf b [], .nil]⟩ ∧
      copied.2.toTy copied.1 = (arena.toTy 3).renameTypes (fun _ => a) ∧
      (Memo.toTy copied.2 copied.1 .empty).1 = ⟨.compound .union [.instanceOf a [], .nil]⟩ := by
  intro a b arena copied
  have acyclic : arena.Acyclic :=
    ((((acyclic_empty 0).push (by decide)).push (by decide)).push (by decide)).push (by decide)
  obtain ⟨translated, remembered⟩ := toTy_mapNames acyclic (show 3 < arena.size by decide) fun _ => a
  refine ⟨acyclic, by decide, Memo.current_empty arena, by decide, translated, ?_⟩
  rw [remembered .empty (Memo.current_empty arena)]
  decide

end SignatureAlgebra
