/-
**Other names for the variables of a type.**

Variables neither absorb other members of a union nor add nothing to them, and names that stay different
keep members different. So a type in normal form keeps its form when its variables get other names, one
name each: its layers are the same, with the types below them respelled, and the type can be told from the
respelled one.

* `Ty.respell` — other names for all variables; `Ty.respell_combine` — in connected types.
* `Vocabulary.over` — types in normal form over some variables.
* `Ty.respell_respell`, `Ty.respell_eq_self` — two respellings as one, and one that changes nothing.
* `Ty.respell_injective` — different types are respelled to different ones.
* `Ty.Respelled`, `Ty.respelled_combine` — a type and the respelled one, as a relation.
* `Ty.respell_node` — the layers of a respelled type.
-/
import Mathlib.Data.List.Forall2
import Mathlib.Data.Set.Function
import SignatureAlgebra.Proofs.Ty.Composition
import SignatureAlgebra.Proofs.Ty.Vocabulary

namespace SignatureAlgebra

/-- A list and its image, with a property of the values. -/
theorem forall₂_eq_map_iff {α β : Type} {f : α → β} {P : α → Prop} {as : List α} {bs : List β} :
    List.Forall₂ (fun a b => b = f a ∧ P a) as bs ↔ bs = as.map f ∧ ∀ a ∈ as, P a := by
  constructor
  · intro pairs
    induction pairs with
    | nil => exact ⟨rfl, nofun⟩
    | cons here _ ih => exact ⟨congrArg₂ List.cons here.1 ih.1, List.forall_mem_cons.2 ⟨here.2, ih.2⟩⟩
  · rintro ⟨rfl, holds⟩
    exact List.forall₂_map_right_iff.2 (List.forall₂_same.2 fun a member => ⟨rfl, holds a member⟩)

namespace Replacement

/-- Puts variables in place of variables. -/
def ofVars (f : Name → Name) : Replacement := { identity with var := fun name => .var (f name) }

theorem isNormal_ofVars (f : Name → Name) : (ofVars f).IsNormal where
  var name := isNormal_identity.var (f name)
  placeholder := isNormal_identity.placeholder

theorem isSolid_ofVars (f : Name → Name) : (ofVars f).IsSolid where
  var _ := ⟨nofun, nofun, nofun⟩
  placeholder _ := ⟨nofun, nofun, nofun⟩

end Replacement

/-- What may occur in types in normal form over some variables. -/
def Vocabulary.over (names : Set Name) : Vocabulary := { normal with var := fun name => name ∈ names }

namespace Ty

variable {c : Connective} {f g : Name → Name} {names : Set Name} {t u : Ty}

/-- Gives the variables of a type other names. -/
def respell (f : Name → Name) (t : Ty) : Ty := t.replace (.ofVars f)

theorem isWithin_over_iff :
    t.IsWithin (.over names) ↔ t.IsNormal ∧ ∀ name ∈ t.freeVars, name ∈ names := by
  constructor
  · exact fun within => ⟨within.isNormal trivial, fun name occurs => within _ (mem_freeVars.1 occurs)⟩
  · rintro ⟨normal, known⟩ u occurs
    have tidy : Vocabulary.normal.Allows u := normal.isWithin u occurs
    obtain ⟨s⟩ := u
    cases s with
    | var name => exact known name (mem_freeVars.2 occurs)
    | _ => exact tidy

theorem IsWithin.over_mono {names' : Set Name} (within : t.IsWithin (.over names))
    (more : names ⊆ names') : t.IsWithin (.over names') := by
  obtain ⟨normal, known⟩ := isWithin_over_iff.1 within
  exact isWithin_over_iff.2 ⟨normal, fun name occurs => more (known name occurs)⟩

/-- The variables of a respelled type are the other names of those of the type. -/
theorem isWithin_respell (f : Name → Name) (within : t.IsWithin (.over names)) :
    (t.respell f).IsWithin (.over (f '' names)) := by
  refine isWithin_replace (v := .over names) ⟨fun name known => ?_, fun word _ => ?_, ?_, ?_⟩ within
  · exact isWithin_of_children (t := .var (f name)) ⟨name, known, rfl⟩ rfl
  · exact isWithin_of_children (t := ⟨.placeholder word⟩) trivial rfl
  · exact fun _ _ => trivial
  · exact fun _ _ _ _ => trivial

theorem respell_congr (same : ∀ name ∈ t.freeVars, f name = g name) : t.respell f = t.respell g :=
  replace_congr (fun name occurs => congrArg var (same name (mem_freeVars.2 occurs))) (fun _ _ => rfl)
    rfl rfl

/-- A type none of whose variables gets another name. -/
theorem respell_eq_self (normal : t.IsNormal) (fixed : ∀ name ∈ t.freeVars, f name = name) :
    t.respell f = t :=
  (respell_congr (g := id) fixed).trans (normalize_eq_self normal)

/-- **Respelling connected types is connecting respelled types.** -/
theorem respell_combine {ts : List Ty} (normal : ∀ t ∈ ts, t.IsNormal) :
    (combine c ts).respell f = combine c (ts.map (respell f)) :=
  replace_combine_of_solid (Replacement.isNormal_ofVars f) (Replacement.isSolid_ofVars f) normal

theorem respell_combine_pair (normal : t.IsNormal) (normal' : u.IsNormal) :
    (combine c [t, u]).respell f = combine c [t.respell f, u.respell f] :=
  respell_combine fun v isSide => by rcases List.mem_pair.1 isSide with rfl | rfl <;> assumption

theorem respell_respell (normal : t.IsNormal) : (t.respell f).respell g = t.respell (g ∘ f) :=
  replace_replace (Replacement.isNormal_ofVars f) (Replacement.isSolid_ofVars f)
    (Replacement.isNormal_ofVars g) normal

/-- **Other names can be taken back**, one name for each variable. -/
theorem exists_respell_respell (injective : Set.InjOn f names) :
    ∃ g : Name → Name, ∀ t : Ty, t.IsWithin (.over names) → (t.respell f).respell g = t := by
  refine ⟨Function.invFunOn f names, fun t within => ?_⟩
  obtain ⟨normal, known⟩ := isWithin_over_iff.1 within
  rw [respell_respell normal]
  exact respell_eq_self normal fun name occurs => injective.leftInvOn_invFunOn (known name occurs)

/-- **Different types are respelled to different ones.** -/
theorem respell_injective (injective : Set.InjOn f names) (within : t.IsWithin (.over names))
    (within' : u.IsWithin (.over names)) (same : t.respell f = u.respell f) : t = u := by
  obtain ⟨g, back⟩ := exists_respell_respell injective
  rw [← back t within, same, back u within']

/-! ### A type and the respelled one -/

/-- **A type and the one it becomes with other names**, over the variables that get them. -/
def Respelled (f : Name → Name) (names : Set Name) (t t' : Ty) : Prop :=
  t' = t.respell f ∧ t.IsWithin (.over names)

theorem respelled_combine {ts ts' : List Ty} (pairs : List.Forall₂ (Respelled f names) ts ts') :
    Respelled f names (combine c ts) (combine c ts') := by
  obtain ⟨rfl, within⟩ := forall₂_eq_map_iff.1 pairs
  exact ⟨(respell_combine fun t isMember => (isWithin_over_iff.1 (within t isMember)).1).symm,
    isWithin_combine within⟩

/-! ### The layers of a respelled type -/

/-- Members of a compound type are respelled to such members. -/
theorem areMembers_respell (injective : Set.InjOn f names) {members : List Ty}
    (connected : AreMembers c members) (within : ∀ t ∈ members, t.IsWithin (.over names))
    (plain : ∀ t ∈ members, (t.respell f).isCompound c = t.isCompound c) :
    AreMembers c (members.map (respell f)) where
  several := by
    rw [List.length_map]
    exact connected.several
  distinct := connected.distinct.map_on fun t isMember u isMember' same =>
    respell_injective injective (within t isMember) (within u isMember') same
  plain := by
    intro u respelled
    obtain ⟨t, isMember, rfl⟩ := List.mem_map.1 respelled
    refine ⟨(plain t isMember).trans (connected.plain t isMember).1, ?_⟩
    exact isSolid_replace (Replacement.isNormal_ofVars f) (Replacement.isSolid_ofVars f)
      (isWithin_over_iff.1 (within t isMember)).1 (connected.plain t isMember).solid

/-- **A respelled type has the layers of the type**, apart from variables. -/
theorem respell_node (injective : Set.InjOn f names) (within : t.IsWithin (.over names))
    (other : ∀ name, t ≠ .var name) : t.respell f = ⟨t.shape.map (respell f)⟩ := by
  induction t using Ty.induction with
  | step t ih =>
    obtain ⟨s⟩ := t
    cases s with
    | var name => exact absurd rfl (other name)
    | compound c members =>
      have connected : AreMembers c members := (isWithin_over_iff.1 within).1.tidy
      have plain : ∀ u ∈ members, (u.respell f).isCompound c = u.isCompound c := fun u isMember => by
        by_cases isVar : ∃ name, u = .var name
        · obtain ⟨name, rfl⟩ := isVar
          rfl
        · rw [ih u isMember (within.of_mem_children isMember) fun name same => isVar ⟨name, same⟩]
          obtain ⟨s⟩ := u
          cases s <;> rfl
      have connected' := areMembers_respell injective connected
        (fun u isMember => within.of_mem_children isMember) plain
      have built : respell f ⟨.compound c members⟩ = combine c (members.map (respell f)) :=
        replace_node _ _
      rw [built]
      exact connected'.combine_eq
    | _ => exact replace_node _ _

end Ty

end SignatureAlgebra
