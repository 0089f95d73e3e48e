/-
**What the types of nodes look like.**

The type of a node is built from the types of the nodes below it, and no declaration gives arguments to
an alias. So the type of any node is in normal form, and its aliases have no arguments, whatever the
arena holds.

* `Ty.IsDeclarable` — no alias in a type has arguments; the predicate can be evaluated.
* `Declared.mem_subterms_toTy` — what occurs in the type of a layer.
* `DeclaredTree.induction` — what holds of a tree when it holds of the trees below holds of every tree.
* `Arena.isNormal_toTy`, `Arena.isDeclarable_toTy` — the statements for nodes.
-/
import SignatureAlgebra.Conversion
import SignatureAlgebra.Proofs.NameMap.Lookup
import SignatureAlgebra.Proofs.Ty.Rebuilding

namespace SignatureAlgebra

/-! ### Aliases without arguments -/

namespace Ty

/-- The arguments of an alias; a type that is none has no such arguments. -/
def aliasArguments : Ty → List Ty
  | aliasOf _ args => args
  | _ => []

/-- **No alias in a type has arguments**, at any depth. -/
def IsDeclarable (t : Ty) : Prop := ∀ u ∈ t.subterms, u.aliasArguments = []

instance (t : Ty) : Decidable t.IsDeclarable :=
  inferInstanceAs (Decidable (∀ u ∈ t.subterms, u.aliasArguments = []))

theorem IsDeclarable.self {t : Ty} (declarable : t.IsDeclarable) : t.aliasArguments = [] :=
  declarable t t.self_mem_subterms

theorem IsDeclarable.of_mem_children {t child : Ty} (declarable : t.IsDeclarable)
    (isChild : child ∈ t.children) : child.IsDeclarable := fun u occurs =>
  declarable u (mem_subterms_iff.2 (Or.inr ⟨child, isChild, occurs⟩))

end Ty

/-! ### Layers -/

/-- The places of a parameter list are places of its declaration. -/
theorem DeclaredParams.mem_of_mem_toParams {α : Type} {p : DeclaredParams α} {a : α}
    (member : a ∈ p.toParams.toList) : a ∈ p.toList := by
  have inRest : ∀ o : Option (DeclaredParam α),
      (o.map DeclaredParam.type).toList = o.toList.map DeclaredParam.type := by
    intro o
    cases o <;> rfl
  have inKeywords : ∀ ks : List (Name × DeclaredParam α),
      a ∈ (NameMap.ofList (ks.map fun binding => (binding.1, binding.2.type))).values →
        a ∈ ks.map (·.2.type) := by
    intro ks member
    have bound := NameMap.mem_of_mem_values_ofList member
    rwa [List.map_map] at bound
  simp only [toParams, Params.toList, inRest, List.mem_append] at member
  simp only [toList, List.mem_append]
  rcases member with ((((required | optional) | rest) | keyword) | keyword) | rest
  · simp only [required, true_or]
  · simp only [optional, true_or, or_true]
  · simp only [rest, true_or, or_true]
  · simp only [inKeywords _ keyword, true_or, or_true]
  · simp only [inKeywords _ keyword, true_or, or_true]
  · simp only [rest, or_true]

/-- **What occurs in the type of a layer**: tidy types that are no alias with arguments, and what occurs
in the types below. -/
theorem Declared.mem_subterms_toTy {d : Declared Ty} {u : Ty} (occurs : u ∈ d.toTy.subterms) :
    (u.IsTidy ∧ u.aliasArguments = []) ∨ ∃ t ∈ d.toList, u ∈ t.subterms := by
  have connected : ∀ {c : Connective} {ts : List Ty}, u ∈ (Ty.combine c ts).subterms →
      (u.IsTidy ∧ u.aliasArguments = []) ∨ ∃ t ∈ ts, u ∈ t.subterms := by
    intro c ts occurs
    obtain rfl | ⟨members, connected, rfl⟩ | below := Ty.mem_subterms_combine occurs
    · exact Or.inl ⟨trivial, rfl⟩
    · exact Or.inl ⟨connected, rfl⟩
    · exact Or.inr below
  cases d with
  | compound connective members => exact connected occurs
  | optional inner =>
    rcases connected occurs with tidy | ⟨t, isMember, below⟩
    · exact Or.inl tidy
    · rcases List.mem_cons.1 isMember with rfl | isNil
      · exact Or.inr ⟨t, List.mem_cons_self, below⟩
      · rw [List.mem_singleton.1 isNil] at below
        have same : u = .nil := by simpa [Ty.subterms_eq, Ty.children, Ty.shape, Shape.toList] using below
        exact Or.inl (same ▸ ⟨trivial, rfl⟩)
  | proc fn =>
    obtain rfl | ⟨t, isChild, below⟩ := Ty.mem_subterms_iff.1 occurs
    · exact Or.inl ⟨trivial, rfl⟩
    · refine Or.inr ⟨t, ?_, below⟩
      rcases List.mem_append.1 isChild with isParam | isResult
      · exact List.mem_append_left _ (DeclaredParams.mem_of_mem_toParams isParam)
      · exact List.mem_append_right _ isResult
  | _ =>
    obtain rfl | below := Ty.mem_subterms_iff.1 occurs
    · exact Or.inl ⟨trivial, rfl⟩
    · exact Or.inr below

theorem DeclaredParams.toList_map {α β : Type} (f : α → β) (p : DeclaredParams α) :
    (p.map f).toList = p.toList.map f := by
  have rest : ∀ o : Option (DeclaredParam α),
      (o.map (DeclaredParam.map f)).toList.map DeclaredParam.type =
        (o.toList.map DeclaredParam.type).map f := by
    intro o
    cases o <;> rfl
  simp only [map, toList, rest, List.map_append, List.map_map]
  rfl

theorem Declared.toList_map {α β : Type} (f : α → β) (d : Declared α) :
    (d.map f).toList = d.toList.map f := by
  cases d with
  | proc fn =>
    simp only [map, toList, DeclaredFunction.map, DeclaredFunction.toList,
      DeclaredParams.toList_map, List.map_append, List.map_cons, List.map_nil]
  | record fields => simp [map, toList, Function.comp_def]
  | _ => rfl

/-! ### Trees and nodes -/

namespace DeclaredTree

/-- How many layers a tree has. -/
def size (t : DeclaredTree) : Nat := t.fold fun sizes => sizes.toList.foldr (· + ·) 0 + 1

theorem size_node (d : Declared DeclaredTree) :
    size ⟨d⟩ = (d.toList.map size).foldr (· + ·) 0 + 1 := by
  rw [size, fold_node, Declared.toList_map]
  rfl

theorem size_lt_of_mem_toList {d : Declared DeclaredTree} {t : DeclaredTree} (member : t ∈ d.toList) :
    t.size < size ⟨d⟩ := by
  rw [size_node]
  exact Nat.lt_succ_of_le (Ty.le_foldr_of_mem (List.mem_map_of_mem member))

/-- What holds of a tree whenever it holds of the trees below its layer holds of every tree. -/
theorem induction {P : DeclaredTree → Prop}
    (step : ∀ d : Declared DeclaredTree, (∀ t ∈ d.toList, P t) → P ⟨d⟩) : ∀ t, P t
  | ⟨d⟩ => step d fun t _ => induction step t
termination_by t => t.size
decreasing_by exact size_lt_of_mem_toList (by assumption)

/-- What occurs in the type of a tree: tidy types that are no alias with arguments. -/
theorem subterms_toTy (t : DeclaredTree) : ∀ u ∈ t.toTy.subterms, u.IsTidy ∧ u.aliasArguments = [] := by
  induction t using induction with
  | step d ih =>
    intro u occurs
    rw [toTy, fold_node] at occurs
    rcases Declared.mem_subterms_toTy occurs with here | ⟨_, isPart, below⟩
    · exact here
    · rw [Declared.toList_map] at isPart
      obtain ⟨t, isBelow, rfl⟩ := List.mem_map.1 isPart
      exact ih t isBelow u below

/-- The type of a tree is in normal form. -/
theorem isNormal_toTy (t : DeclaredTree) : t.toTy.IsNormal := fun u occurs => (t.subterms_toTy u occurs).1

end DeclaredTree

namespace Arena

/-- **The type of a node is in normal form.** -/
theorem isNormal_toTy (arena : Arena) (id : NodeId) : (arena.toTy id).IsNormal :=
  (arena.tree id).isNormal_toTy

/-- The types of the parameters of a function are in normal form. -/
theorem isNormal_toParams (arena : Arena) (p : DeclaredParams NodeId) :
    ∀ t ∈ (p.map arena.toTy).toParams.toList, t.IsNormal := by
  intro t member
  have isPlace := DeclaredParams.mem_of_mem_toParams member
  rw [DeclaredParams.toList_map] at isPlace
  obtain ⟨id, _, rfl⟩ := List.mem_map.1 isPlace
  exact arena.isNormal_toTy id

/-- **No alias in the type of a node has arguments.** -/
theorem isDeclarable_toTy (arena : Arena) (id : NodeId) : (arena.toTy id).IsDeclarable :=
  fun u occurs => ((arena.tree id).subterms_toTy u occurs).2

end Arena

end SignatureAlgebra
