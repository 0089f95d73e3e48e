/-
**Other names for variables, letter by letter.**

Relabelling gives variables other names and leaves everything else as it is written, also where a type is
not in normal form. Connecting types looks only at which members are equal and which are certain words, so
it does not notice names that stay different: replacing in a relabelled type gives the relabelled result
as soon as the new names are replaced by relabelled types.

* `Ty.relabel` — other names for variables; `Ty.freeVars_relabel`, `Ty.relabel_relabel`.
* `Ty.relabel_injective` — types are told apart as long as their variables are.
* `Ty.relabel_combine` — connecting relabelled types; `Ty.replace_relabel` — replacing in them.
* `Ty.relabel_eq_respell` — on types in normal form relabelling is respelling.
-/
import SignatureAlgebra.Proofs.Ty.Respelling

namespace SignatureAlgebra

namespace Shape

variable {α β : Type}

/-- The variable that a layer is. -/
def vars : Shape α → List Name
  | .var name => [name]
  | _ => []

/-- Gives the variable that a layer is another name. -/
def relabel (f : Name → Name) : Shape α → Shape α
  | .var name => .var (f name)
  | s => s

theorem vars_map (h : α → β) (s : Shape α) : (s.map h).vars = s.vars := by cases s <;> rfl

theorem vars_relabel (f : Name → Name) (s : Shape α) : (s.relabel f).vars = s.vars.map f := by
  cases s <;> rfl

theorem toList_relabel (f : Name → Name) (s : Shape α) : (s.relabel f).toList = s.toList := by
  cases s <;> rfl

theorem map_relabel (f : Name → Name) (h : α → β) (s : Shape α) :
    (s.relabel f).map h = (s.map h).relabel f := by cases s <;> rfl

theorem relabel_relabel (f g : Name → Name) (s : Shape α) :
    (s.relabel f).relabel g = s.relabel (g ∘ f) := by cases s <;> rfl

theorem relabel_congr {f g : Name → Name} {s : Shape α} (same : ∀ name ∈ s.vars, f name = g name) :
    s.relabel f = s.relabel g := by
  cases s with
  | var name => exact congrArg var (same name List.mem_cons_self)
  | _ => rfl

end Shape

namespace Ty

variable {c : Connective} {f g : Name → Name} {names : Set Name} {t u : Ty}

/-! ### Relabelling a type -/

/-- Gives the variables of a type other names, and leaves the type as it is written otherwise. -/
def relabel (f : Name → Name) (t : Ty) : Ty := t.fold fun s => ⟨s.relabel f⟩

theorem relabel_node (f : Name → Name) (s : Shape Ty) :
    relabel f ⟨s⟩ = ⟨(s.map (relabel f)).relabel f⟩ := fold_node _ s

theorem freeVars_node (s : Shape Ty) : freeVars ⟨s⟩ = s.vars ++ s.toList.flatMap freeVars := by
  have all : subterms ⟨s⟩ = ⟨s⟩ :: s.toList.flatMap subterms := subterms_eq ⟨s⟩
  rw [freeVars, all]
  cases s with
  | var name => rfl
  | _ => exact List.filterMap_flatMap

/-- **The variables of a relabelled type** are those of the type, by their other names. -/
theorem freeVars_relabel (f : Name → Name) (t : Ty) : (t.relabel f).freeVars = t.freeVars.map f := by
  induction t using Ty.induction with
  | step t ih =>
    obtain ⟨s⟩ := t
    rw [relabel_node, freeVars_node, freeVars_node, Shape.vars_relabel, Shape.vars_map,
      Shape.toList_relabel, Shape.toList_map, List.map_append, List.flatMap_map, List.map_flatMap]
    exact congrArg _ (List.flatMap_congr ih)

theorem relabel_relabel (f g : Name → Name) (t : Ty) : (t.relabel f).relabel g = t.relabel (g ∘ f) := by
  induction t using Ty.induction with
  | step t ih =>
    obtain ⟨s⟩ := t
    have below : s.map (relabel g ∘ relabel f) = s.map (relabel (g ∘ f)) := Shape.map_congr ih
    rw [relabel_node, relabel_node, relabel_node, Shape.map_relabel, Shape.relabel_relabel,
      Shape.map_map, below]

theorem relabel_congr (same : ∀ name ∈ t.freeVars, f name = g name) : t.relabel f = t.relabel g := by
  induction t using Ty.induction with
  | step t ih =>
    obtain ⟨s⟩ := t
    rw [freeVars_node] at same
    have below : s.map (relabel f) = s.map (relabel g) := Shape.map_congr fun u isPart =>
      ih u isPart fun name occurs =>
        same name (List.mem_append_right _ (List.mem_flatMap.2 ⟨u, isPart, occurs⟩))
    have here : (s.map (relabel g)).relabel f = (s.map (relabel g)).relabel g :=
      Shape.relabel_congr fun name isVar => same name (List.mem_append_left _ (Shape.vars_map _ s ▸ isVar))
    rw [relabel_node, relabel_node, below, here]

theorem relabel_id (t : Ty) : t.relabel id = t := by
  induction t using Ty.induction with
  | step t ih =>
    obtain ⟨s⟩ := t
    have below : s.map (relabel id) = s := (Shape.map_congr ih).trans s.map_id
    have here : s.relabel id = s := by cases s <;> rfl
    rw [relabel_node, below, here]

/-- **Different types are relabelled to different ones.** -/
theorem relabel_injective (injective : Set.InjOn f names) (known : ∀ name ∈ t.freeVars, name ∈ names)
    (known' : ∀ name ∈ u.freeVars, name ∈ names) (same : t.relabel f = u.relabel f) : t = u := by
  have back : ∀ v : Ty, (∀ name ∈ v.freeVars, name ∈ names) →
      (v.relabel f).relabel (Function.invFunOn f names) = v := by
    intro v known
    rw [relabel_relabel]
    exact (relabel_congr fun name occurs => injective.leftInvOn_invFunOn (known name occurs)).trans
      v.relabel_id
  rw [← back t known, same, back u known']

/-- **On types in normal form relabelling is respelling**, as long as names stay different. -/
theorem relabel_eq_respell (injective : Set.InjOn f names) (within : t.IsWithin (.over names)) :
    t.relabel f = t.respell f := by
  induction t using Ty.induction with
  | step t ih =>
    by_cases isVar : ∃ name, t = .var name
    · obtain ⟨name, rfl⟩ := isVar
      rfl
    · have other : ∀ name, t ≠ .var name := fun name same => isVar ⟨name, same⟩
      obtain ⟨s⟩ := t
      have below : s.map (relabel f) = s.map (respell f) := Shape.map_congr fun u isPart =>
        ih u isPart (within.of_mem_children isPart)
      have here : (s.map (respell f)).relabel f = s.map (respell f) := by
        cases s with
        | var name => exact absurd rfl (other name)
        | _ => rfl
      rw [respell_node injective within other, relabel_node, below, here]
      rfl

/-! ### Connecting relabelled types -/

theorem isCompound_relabel (c : Connective) (f : Name → Name) (t : Ty) :
    (t.relabel f).isCompound c = t.isCompound c := by
  obtain ⟨s⟩ := t
  cases s <;> rfl

theorem relabel_eq_base_iff (f : Name → Name) (t : Ty) (word : Base) :
    t.relabel f = ⟨.base word⟩ ↔ t = ⟨.base word⟩ := by
  obtain ⟨s⟩ := t
  rw [relabel_node]
  cases s <;> simp [Shape.map, Shape.relabel]

theorem absorbs_relabel (c : Connective) (f : Name → Name) (t : Ty) :
    c.absorbs (t.relabel f) = c.absorbs t := by
  simp only [Connective.absorbs, relabel_eq_base_iff]

theorem leaves_relabel (c : Connective) (f : Name → Name) (t : Ty) :
    leaves c (t.relabel f) = (leaves c t).map (relabel f) := by
  induction t using Ty.induction with
  | step t ih =>
    by_cases compound : t.isCompound c = true
    · obtain ⟨members, rfl⟩ := eq_compound_of_isCompound compound
      have relabelled : relabel f ⟨.compound c members⟩ = ⟨.compound c (members.map (relabel f))⟩ :=
        relabel_node f _
      rw [relabelled, leaves_compound, leaves_compound, List.flatMap_map, List.map_flatMap]
      exact List.flatMap_congr ih
    · have plain : t.isCompound c = false := by simpa using compound
      rw [leaves_of_not_isCompound plain, leaves_of_not_isCompound (by rwa [isCompound_relabel])]
      rfl

theorem essence_relabel (c : Connective) (f : Name → Name) (t : Ty) :
    essence c (t.relabel f) = (essence c t).map (relabel f) := by
  rw [essence, essence, leaves_relabel, List.filter_map]
  congr 1
  refine List.filter_congr fun leaf _ => ?_
  simp only [Function.comp_apply, ofUnit, relabel_eq_base_iff, ne_eq]

theorem collapse_relabel (c : Connective) (f : Name → Name) (members : List Ty) :
    collapse c (members.map (relabel f)) = (collapse c members).relabel f := by
  match members with
  | [] => rfl
  | [_] => rfl
  | first :: second :: rest =>
    exact (relabel_node f (.compound c (first :: second :: rest))).symm

/-- **Connecting relabelled types is relabelling what they connect to.** -/
theorem relabel_combine (injective : Set.InjOn f names) {ts : List Ty}
    (known : ∀ t ∈ ts, ∀ name ∈ t.freeVars, name ∈ names) :
    (combine c ts).relabel f = combine c (ts.map (relabel f)) := by
  have leaves' : (ts.map (relabel f)).flatMap (leaves c) = (ts.flatMap (leaves c)).map (relabel f) := by
    rw [List.flatMap_map, List.map_flatMap]
    exact List.flatMap_congr fun t _ => leaves_relabel c f t
  have essence' : (ts.map (relabel f)).flatMap (essence c) = (ts.flatMap (essence c)).map (relabel f) := by
    rw [List.flatMap_map, List.map_flatMap]
    exact List.flatMap_congr fun t _ => essence_relabel c f t
  have inMember : ∀ leaf ∈ ts.flatMap (essence c), ∀ name ∈ leaf.freeVars, name ∈ names := by
    intro leaf counts name occurs
    obtain ⟨t, isMember, inEssence⟩ := List.mem_flatMap.1 counts
    refine known t isMember name (mem_freeVars.2 ?_)
    exact mem_subterms_of_mem_leaves t (essence_spec inEssence).1 (mem_freeVars.1 occurs)
  have distinct : ((ts.flatMap (essence c)).map (relabel f)).eraseDups =
      (ts.flatMap (essence c)).eraseDups.map (relabel f) :=
    eraseDups_map fun t counts u counts' =>
      relabel_injective injective (inMember t counts) (inMember u counts')
  have absorbs : c.absorbs ∘ relabel f = c.absorbs := funext (absorbs_relabel c f)
  rw [combine_eq, combine_eq, leaves', essence', distinct, collapse_relabel, List.find?_map, absorbs]
  cases (ts.flatMap (leaves c)).find? c.absorbs <;> rfl

end Ty

/-! ### Replacing in relabelled types -/

/-- **A replacement that puts relabelled types in place of the other names** for what may occur, all of them
over variables that stay told apart. -/
structure Replacement.Relabels (v : Vocabulary) (f : Name → Name) (names : Set Name) (r r' : Replacement) :
    Prop where
  var : ∀ name, v.var name → r'.var (f name) = (r.var name).relabel f
  placeholder : ∀ word, v.placeholder word → r'.placeholder word = (r.placeholder word).relabel f
  singleton : r'.singleton = r.singleton
  head : r'.head = r.head
  carries : r.Carries v (.ofVars fun name => name ∈ names)

namespace Ty

variable {v : Vocabulary} {f : Name → Name} {names : Set Name} {t : Ty} {r r' : Replacement}

/-- **Replacing in a relabelled type** gives the relabelled result. -/
theorem replace_relabel (injective : Set.InjOn f names) (relabels : r.Relabels v f names r')
    (within : t.IsWithin v) : (t.relabel f).replace r' = (t.replace r).relabel f := by
  induction t using Ty.induction with
  | step t ih =>
    obtain ⟨s⟩ := t
    have each : (s.map (relabel f)).map (replace r') = (s.map (replace r)).map (relabel f) := by
      rw [Shape.map_map, Shape.map_map]
      exact Shape.map_congr fun u isPart => ih u isPart (within.of_mem_children isPart)
    have built : (relabel f ⟨s⟩).replace r' =
        r'.build (((s.map (replace r)).map (relabel f)).relabel f) := by
      rw [relabel_node, replace_node, Shape.map_relabel, each]
    rw [built, replace_node]
    cases s with
    | var name => exact relabels.var name within.allows
    | placeholder word => exact relabels.placeholder word within.allows
    | singleton name => exact congrArg (fun names => singletonOf (names name)) relabels.singleton
    | applied head name args =>
      simp only [Replacement.build, Shape.map, Shape.relabel, relabels.head]
      exact (relabel_node f (.applied head (r.head head name) (args.map (replace r)))).symm
    | compound c members =>
      have known : ∀ u ∈ members.map (replace r), ∀ name ∈ u.freeVars, name ∈ names := by
        intro u replaced
        obtain ⟨t, isMember, rfl⟩ := List.mem_map.1 replaced
        exact isWithin_ofVars_iff.1 (isWithin_replace relabels.carries (within.of_mem_children isMember))
      exact (relabel_combine injective known).symm
    | _ => exact (relabel_node f _).symm

end Ty

end SignatureAlgebra
