/-
**Changing the type names of declared types.**

Going through a layer with an action changes its type name first and then what stands at its places. Where
the action only gives other names, this is a plain function on layers, and on trees the function that
changes every layer.

* `Declared.traverse_map`, `DeclaredTree.traverseNames_node` — the layers of a tree one by one.
* `Declared.mapName`, `Declared.traverse_pure` — the layer with another type name.
* `DeclaredTree.mapNames`, `DeclaredTree.traverseNames_pure` — the tree with other type names.
-/
import SignatureAlgebra.Declared.Tree
import SignatureAlgebra.Proofs.Conversion.Types
import SignatureAlgebra.Proofs.Conversion.Unrolling

namespace SignatureAlgebra

variable {α β γ : Type} {M : Type → Type} [Monad M]

/-! ### Layers -/

section Layers

variable [LawfulMonad M]

namespace DeclaredParams

theorem mapM_map (h : α → β) (f : β → M γ) (p : DeclaredParams α) : (p.map h).mapM f = p.mapM (f ∘ h) := by
  have inRest : ∀ o : Option (DeclaredParam α),
      Params.mapRestM (DeclaredParam.mapM f) (o.map (DeclaredParam.map h)) =
        Params.mapRestM (DeclaredParam.mapM (f ∘ h)) o := by
    intro o
    cases o <;> rfl
  simp only [mapM, map, inRest, List.mapM_map]
  rfl

theorem mapM_pure (f : α → β) (p : DeclaredParams α) :
    p.mapM (fun a => (pure (f a) : M β)) = pure (p.map f) := by
  have param : DeclaredParam.mapM (fun a => (pure (f a) : M β)) = fun q => pure (q.map f) := by
    funext q
    simp [DeclaredParam.mapM, DeclaredParam.map]
  have keyword : mapKeywordM (fun a => (pure (f a) : M β)) =
      fun binding => pure (binding.1, binding.2.map f) := by
    funext binding
    simp [mapKeywordM, param]
  have inRest : ∀ o : Option (DeclaredParam α),
      Params.mapRestM (fun q => (pure (q.map f) : M (DeclaredParam β))) o =
        pure (o.map (DeclaredParam.map f)) := by
    intro o
    cases o <;> simp [Params.mapRestM]
  simp only [mapM, map, param, keyword, inRest, List.mapM_pure, pure_bind]

end DeclaredParams

namespace Declared

theorem traverse_map (rename : TypeName → M TypeName) (h : α → β) (f : β → M γ) (d : Declared α) :
    (d.map h).traverse rename f = d.traverse rename (f ∘ h) := by
  cases d with
  | proc fn =>
    simp only [map, traverse, DeclaredFunction.map, DeclaredFunction.mapM, DeclaredParams.mapM_map]
    rfl
  | _ => simp only [map, traverse, List.mapM_map]; try rfl

/-- Changes the type name of a layer. -/
def mapName (f : TypeName → TypeName) : Declared α → Declared α
  | singleton name => singleton (f name)
  | classInstance name args => classInstance (f name) args
  | interface name args => interface (f name) args
  | aliasRef name => aliasRef (f name)
  | d => d

theorem map_mapName (f : TypeName → TypeName) (g : α → β) (d : Declared α) :
    (d.mapName f).map g = (d.map g).mapName f := by cases d <;> rfl

/-- **Going through a layer without an effect** changes its type name and what stands at its places. -/
theorem traverse_pure (f : TypeName → TypeName) (g : α → β) (d : Declared α) :
    d.traverse (fun name => (pure (f name) : M TypeName)) (fun a => pure (g a)) =
      pure ((d.map g).mapName f) := by
  cases d with
  | proc fn =>
    simp only [traverse, DeclaredFunction.mapM, DeclaredParams.mapM_pure, pure_bind]
    rfl
  | record fields =>
    simp only [traverse, pure_bind, List.mapM_pure]
    rfl
  | _ => simp only [traverse, List.mapM_pure, pure_bind]; rfl

end Declared

end Layers

/-! ### Trees -/

namespace DeclaredTree

/-- The equation that `traverseNames` solves. -/
theorem traverseNames_node (rename : TypeName → M TypeName) (d : Declared DeclaredTree) :
    traverseNames rename ⟨d⟩ =
      (do return ⟨← (d.map (traverseNames rename)).traverse rename id⟩ : M DeclaredTree) := fold_node _ d

/-- There is nothing to change in a tree that is a leaf. -/
theorem traverseNames_of_isLeaf [LawfulMonad M] {rename : TypeName → M TypeName} {d : Declared α}
    (leaf : d.isLeaf = true) (f : α → DeclaredTree) :
    traverseNames rename ⟨d.map f⟩ = pure ⟨d.map f⟩ := by
  rw [traverseNames_node]
  cases d <;> first | exact pure_bind _ _ | cases leaf

/-- Changes the type names of a tree. -/
def mapNames (f : TypeName → TypeName) (t : DeclaredTree) : DeclaredTree := t.fold fun d => ⟨d.mapName f⟩

theorem mapNames_node (f : TypeName → TypeName) (d : Declared DeclaredTree) :
    mapNames f ⟨d⟩ = ⟨(d.map (mapNames f)).mapName f⟩ := fold_node _ d

/-- **Going through a tree without an effect** changes its type names. -/
theorem traverseNames_pure [LawfulMonad M] (f : TypeName → TypeName) (t : DeclaredTree) :
    t.traverseNames (fun name => (pure (f name) : M TypeName)) = pure (t.mapNames f) := by
  induction t using induction with
  | step d ih =>
    have below : d.map (traverseNames fun name => (pure (f name) : M TypeName)) =
        d.map fun t => pure (t.mapNames f) := Declared.map_congr ih
    rw [traverseNames_node, below, Declared.traverse_map, mapNames_node]
    have layer : d.traverse (fun name => (pure (f name) : M TypeName)) (id ∘ fun t => pure (t.mapNames f)) =
        pure ((d.map (mapNames f)).mapName f) := Declared.traverse_pure f (mapNames f) d
    rw [layer, pure_bind]

end DeclaredTree

end SignatureAlgebra
