/-
**The type of a node, from the types of the nodes below.**

Every place of a node of an acyclic arena holds a smaller number, so the tree below a node is
followed to its end, and the type of a node is its layer over the types of the nodes it refers to.

* `Arena.Acyclic.push` — a node over earlier nodes keeps an arena acyclic.
* `Arena.toTy_eq` — the equation; it determines `Arena.toTy`.
* `Declared.toTy_withoutTrailing` — the positionals after a function's rest are not looked at.
-/
import SignatureAlgebra.Conversion

namespace SignatureAlgebra

variable {α β γ : Type}

/-! ### Layers -/

namespace DeclaredParams

theorem map_congr {f g : α → β} {p : DeclaredParams α} (same : ∀ a ∈ p.toList, f a = g a) :
    p.map f = p.map g := by
  have param : ∀ {q : DeclaredParam α}, f q.type = g q.type → q.map f = q.map g := by
    intro q agree
    rw [DeclaredParam.map, DeclaredParam.map, agree]
  have positionals : ∀ {ps : List (DeclaredParam α)},
      (∀ a ∈ ps.map DeclaredParam.type, f a = g a) →
        ps.map (DeclaredParam.map f) = ps.map (DeclaredParam.map g) := fun agree =>
    List.map_congr_left fun q member => param (agree q.type (List.mem_map_of_mem member))
  have inRest : ∀ {o : Option (DeclaredParam α)},
      (∀ a ∈ o.toList.map DeclaredParam.type, f a = g a) →
        o.map (DeclaredParam.map f) = o.map (DeclaredParam.map g) := by
    intro o agree
    cases o with
    | none => rfl
    | some q => exact congrArg some (param (agree q.type (by simp)))
  have keywords : ∀ {ks : List (Name × DeclaredParam α)},
      (∀ a ∈ ks.map (·.2.type), f a = g a) →
        (ks.map fun binding => (binding.1, binding.2.map f)) =
          ks.map fun binding => (binding.1, binding.2.map g) := fun agree =>
    List.map_congr_left fun binding member => by
      rw [param (agree binding.2.type (List.mem_map.2 ⟨binding, member, rfl⟩))]
  simp only [toList, List.mem_append, or_imp, forall_and] at same
  obtain ⟨⟨⟨⟨⟨⟨required, optional⟩, rest⟩, trailing⟩, names⟩, optionalNames⟩, restNames⟩ := same
  unfold map
  rw [positionals required, positionals optional, inRest rest, positionals trailing,
    keywords names, keywords optionalNames, inRest restNames]

end DeclaredParams

namespace Declared

theorem map_congr {f g : α → β} {d : Declared α} (same : ∀ a ∈ d.toList, f a = g a) :
    d.map f = d.map g := by
  cases d with
  | proc fn =>
    simp only [toList, DeclaredFunction.toList, List.mem_append, List.mem_singleton] at same
    have params : fn.params.map f = fn.params.map g :=
      DeclaredParams.map_congr fun a member => same a (Or.inl member)
    have result : f fn.result = g fn.result := same fn.result (Or.inr rfl)
    rw [map, map, DeclaredFunction.map, DeclaredFunction.map, params, result]
  | record fields =>
    have values : (fields.map fun field => (field.1, f field.2)) =
        fields.map fun field => (field.1, g field.2) :=
      List.map_congr_left fun field member => by
        rw [same field.2 (List.mem_map.2 ⟨field, member, rfl⟩)]
    rw [map, map, values]
  | _ => simp_all [map, toList]

theorem map_withoutTrailing (f : α → β) (d : Declared α) :
    d.withoutTrailing.map f = (d.map f).withoutTrailing := by
  cases d <;> rfl

/-- The places that are left are places. -/
theorem mem_of_mem_withoutTrailing {d : Declared α} {a : α} (member : a ∈ d.withoutTrailing.toList) :
    a ∈ d.toList := by
  cases d with
  | proc fn =>
    simp only [withoutTrailing, toList, DeclaredFunction.toList, DeclaredParams.toList,
      DeclaredParams.withoutTrailing, List.map_nil, List.append_nil, List.mem_append] at member ⊢
    grind
  | _ => exact member

/-- Labels and trailing positionals of a function leave no trace in its type. -/
theorem toTy_withoutTrailing (d : Declared Ty) : d.withoutTrailing.toTy = d.toTy := by
  cases d <;> rfl

end Declared

/-! ### Trees -/

namespace Arena

variable {arena : Arena}

theorem acyclic_empty (number : Nat) : (empty number).Acyclic := by
  intro id node found
  simp [get?, empty] at found

theorem get?_of_lt {id : NodeId} (known : id < arena.size) : ∃ node, arena.get? id = some node :=
  ⟨_, Array.getElem?_eq_getElem known⟩

theorem lt_of_get? {id : NodeId} {node : Declared NodeId} (found : arena.get? id = some node) :
    id < arena.size :=
  (Array.getElem?_eq_some_iff.1 found).1

/-- **A node over earlier nodes** keeps an arena acyclic. -/
theorem Acyclic.push (acyclic : arena.Acyclic) {node : Declared NodeId}
    (below : ∀ child ∈ node.toList, child < arena.size) : (arena.push node).Acyclic := by
  intro id found present child member
  rw [get?, Arena.push, Array.getElem?_push] at present
  by_cases last : id = arena.nodes.size
  · rw [if_pos last, Option.some.injEq] at present
    subst present
    rw [last]
    exact below child member
  · rw [if_neg last] at present
    exact acyclic id found present child member

/-- The node of a number refers to smaller numbers only, also where there is no node. -/
theorem Acyclic.child_lt (acyclic : arena.Acyclic) {id child : NodeId}
    (member : child ∈ ((arena.get? id).getD missing).toList) : child < id := by
  cases found : arena.get? id with
  | none =>
    rw [found] at member
    cases member
  | some node =>
    rw [found] at member
    exact acyclic id node found child member

/-- **Steps beyond the end** of a tree change nothing. -/
theorem treeWithin_eq (acyclic : arena.Acyclic) {depth depth' : Nat} {id : NodeId} (enough : id < depth)
    (enough' : id < depth') : arena.treeWithin depth id = arena.treeWithin depth' id := by
  -- Both depths go down together, since a child has a smaller number than its node.
  induction depth generalizing depth' id with
  | zero => exact absurd enough (Nat.not_lt_zero id)
  | succ depth ih =>
    cases depth' with
    | zero => exact absurd enough' (Nat.not_lt_zero id)
    | succ depth' =>
      rw [treeWithin, treeWithin]
      congr 1
      apply Declared.map_congr
      intro child member
      have smaller := acyclic.child_lt member
      exact ih (Nat.lt_of_lt_of_le smaller (Nat.le_of_lt_succ enough))
        (Nat.lt_of_lt_of_le smaller (Nat.le_of_lt_succ enough'))

theorem tree_eq (acyclic : arena.Acyclic) (id : NodeId) :
    arena.tree id = ⟨((arena.get? id).getD missing).map arena.tree⟩ := by
  rw [tree, treeWithin]
  congr 1
  apply Declared.map_congr
  intro child member
  exact treeWithin_eq acyclic (acyclic.child_lt member) (Nat.lt_succ_self child)

end Arena

theorem DeclaredParams.map_map (f : α → β) (g : β → γ) (p : DeclaredParams α) :
    (p.map f).map g = p.map (g ∘ f) := by
  have param : ∀ q : DeclaredParam α, (q.map f).map g = q.map (g ∘ f) := fun _ => rfl
  simp [map, Function.comp_def, param]

theorem Declared.map_map (f : α → β) (g : β → γ) (d : Declared α) :
    (d.map f).map g = d.map (g ∘ f) := by
  cases d <;> simp [map, DeclaredFunction.map, DeclaredParams.map_map, Function.comp_def]

/-- **The equation of the types of nodes.** -/
theorem Arena.toTy_eq {arena : Arena} (acyclic : arena.Acyclic) (id : NodeId) :
    arena.toTy id = (((arena.get? id).getD missing).map arena.toTy).toTy := by
  rw [toTy, tree_eq acyclic, DeclaredTree.toTy, DeclaredTree.fold_node, Declared.map_map]
  rfl

end SignatureAlgebra
