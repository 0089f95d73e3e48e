/-
**What may occur in a type.**

A vocabulary says which variables, placeholders, singletons and applied names may occur in a type, and
whether its compound types have to be tidy. Types within a vocabulary stay within it when they are
connected, and a replacement takes the types within one vocabulary to types within another as soon as it
does so name by name. Normal form, the variables of a type, and whether all names are declared are
matters of vocabulary.

* `Vocabulary`, `Vocabulary.Allows` — the layers that may occur; `Vocabulary.unlimited`.
* `Vocabulary.withVars`, `Vocabulary.withPlaceholders` — more variables, all placeholders.
* `Vocabulary.ofVars`, `Vocabulary.occurringIn` — some variables, and what occurs in some types.
* `Ty.IsWithin` — the predicate on types, over all subterms.
* `Ty.isWithin_combine`, `Ty.isWithin_replace` — what is built is within the vocabulary.
* `Vocabulary.normal`, `Ty.IsNormal.isWithin`, `Ty.IsWithin.isNormal` — normal form.
-/
import SignatureAlgebra.Proofs.Ty.Rebuilding

namespace SignatureAlgebra

/-- **What may occur in a type.** -/
structure Vocabulary where
  var : Name → Prop
  placeholder : Placeholder → Prop
  singleton : TypeName → Prop
  /-- A head and a name, with the number of arguments. -/
  applied : Head → TypeName → Nat → Prop
  /-- Whether only tidy compound types may occur. -/
  onlyTidy : Prop

namespace Vocabulary

/-- Anything may occur. -/
def unlimited : Vocabulary where
  var _ := True
  placeholder _ := True
  singleton _ := True
  applied _ _ _ := True
  onlyTidy := False

/-- Anything may occur in a type in normal form. -/
def normal : Vocabulary := { unlimited with onlyTidy := True }

/-- The same with more variables. -/
def withVars (v : Vocabulary) (names : List Name) : Vocabulary :=
  { v with var := fun name => v.var name ∨ name ∈ names }

/-- The same with all placeholders. -/
def withPlaceholders (v : Vocabulary) : Vocabulary := { v with placeholder := fun _ => True }

/-- Some variables, and anything else. -/
def ofVars (allowed : Name → Prop) : Vocabulary := { unlimited with var := allowed }

/-- The variables and placeholders that occur in some types, and anything else. -/
def occurringIn (types : List Ty) : Vocabulary :=
  { unlimited with
    var := fun name => ∃ t ∈ types, name ∈ t.freeVars
    placeholder := fun word => ∃ t ∈ types, ⟨.placeholder word⟩ ∈ t.subterms }

/-- Whether the outermost layer of a type may occur. -/
def Allows (v : Vocabulary) : Ty → Prop
  | .var name => v.var name
  | ⟨.placeholder word⟩ => v.placeholder word
  | .singletonOf name => v.singleton name
  | ⟨.applied head name args⟩ => v.applied head name args.length
  | ⟨.compound c members⟩ => v.onlyTidy → Ty.AreMembers c members
  | _ => True

end Vocabulary

namespace Ty

variable {v w : Vocabulary} {t u : Ty} {c : Connective}

/-- **Only what a vocabulary allows occurs in a type**, at any depth. -/
def IsWithin (v : Vocabulary) (t : Ty) : Prop := ∀ u ∈ t.subterms, v.Allows u

theorem isWithin_iff :
    t.IsWithin v ↔ v.Allows t ∧ ∀ child ∈ t.children, child.IsWithin v := by
  constructor
  · intro within
    exact ⟨within t t.self_mem_subterms, fun child isChild u occurs =>
      within u (mem_subterms_iff.2 (Or.inr ⟨child, isChild, occurs⟩))⟩
  · rintro ⟨here, below⟩ u occurs
    obtain rfl | ⟨child, isChild, inChild⟩ := mem_subterms_iff.1 occurs
    · exact here
    · exact below child isChild u inChild

theorem IsWithin.allows (within : t.IsWithin v) : v.Allows t := within t t.self_mem_subterms

theorem IsWithin.of_mem_children (within : t.IsWithin v) (isChild : u ∈ t.children) : u.IsWithin v :=
  (isWithin_iff.1 within).2 u isChild

theorem IsWithin.mono (within : t.IsWithin v) (allowed : ∀ u, v.Allows u → w.Allows u) :
    t.IsWithin w := fun u occurs => allowed u (within u occurs)

/-- A type without members of its own. -/
theorem isWithin_of_children (allowed : v.Allows t) (none : t.children = []) : t.IsWithin v :=
  isWithin_iff.2 ⟨allowed, fun child isChild => by rw [none] at isChild; cases isChild⟩

theorem IsWithin.withVars (within : t.IsWithin v) (names : List Name) : t.IsWithin (v.withVars names) := by
  refine within.mono fun u allowed => ?_
  obtain ⟨s⟩ := u
  cases s with
  | var name => exact Or.inl allowed
  | _ => exact allowed

theorem IsWithin.withPlaceholders (within : t.IsWithin v) : t.IsWithin v.withPlaceholders := by
  refine within.mono fun u allowed => ?_
  obtain ⟨s⟩ := u
  cases s with
  | placeholder word => exact trivial
  | _ => exact allowed

theorem isWithin_ofVars_iff {allowed : Name → Prop} :
    t.IsWithin (.ofVars allowed) ↔ ∀ name ∈ t.freeVars, allowed name := by
  constructor
  · exact fun within name occurs => within _ (mem_freeVars.1 occurs)
  · rintro known ⟨s⟩ occurs
    cases s with
    | var name => exact known name (mem_freeVars.2 occurs)
    | compound c members => exact False.elim
    | _ => exact trivial

theorem isWithin_occurringIn {types : List Ty} (isType : t ∈ types) : t.IsWithin (.occurringIn types) := by
  rintro ⟨s⟩ occurs
  cases s with
  | var name => exact ⟨t, isType, mem_freeVars.2 occurs⟩
  | placeholder word => exact ⟨t, isType, occurs⟩
  | compound c members => exact False.elim
  | _ => exact trivial

/-- A class or interface applied to arguments. -/
theorem isWithin_applied {head : Head} {name : TypeName} {args : List Ty}
    (known : v.applied head name args.length) (within : ∀ t ∈ args, t.IsWithin v) :
    (⟨.applied head name args⟩ : Ty).IsWithin v := isWithin_iff.2 ⟨known, within⟩

theorem isWithin_replicate_any (v : Vocabulary) (n : Nat) :
    ∀ t ∈ List.replicate n any, t.IsWithin v := by
  intro t member
  rw [List.eq_of_mem_replicate member]
  exact isWithin_of_children trivial rfl

/-- **Connecting types within a vocabulary** gives a type within it. -/
theorem isWithin_combine {ts : List Ty} (within : ∀ t ∈ ts, t.IsWithin v) :
    (combine c ts).IsWithin v := by
  intro u occurs
  obtain rfl | ⟨members, connected, rfl⟩ | ⟨t, isMember, inType⟩ := mem_subterms_combine occurs
  · exact trivial
  · exact fun _ => connected
  · exact within t isMember u inType

end Ty

/-- What a replacement puts in place of the names of one vocabulary is within another. -/
structure Replacement.Carries (r : Replacement) (v w : Vocabulary) : Prop where
  var : ∀ name, v.var name → (r.var name).IsWithin w
  placeholder : ∀ word, v.placeholder word → (r.placeholder word).IsWithin w
  singleton : ∀ name, v.singleton name → w.singleton (r.singleton name)
  applied : ∀ head name n, v.applied head name n → w.applied head (r.head head name) n

namespace Ty

variable {v w : Vocabulary} {t : Ty}

/-- **Replacing takes types within a vocabulary** to types within the one of what is put in place of
names. -/
theorem isWithin_replace {r : Replacement} (carries : r.Carries v w) (within : t.IsWithin v) :
    (t.replace r).IsWithin w := by
  induction t using Ty.induction with
  | step t ih =>
    obtain ⟨s⟩ := t
    have below : ∀ child ∈ (s.map (replace r)).toList, child.IsWithin w := by
      intro child isChild
      rw [Shape.toList_map] at isChild
      obtain ⟨u, isPart, rfl⟩ := List.mem_map.1 isChild
      exact ih u isPart (within.of_mem_children isPart)
    rw [replace_node]
    cases s with
    | var name => exact carries.var name within.allows
    | placeholder word => exact carries.placeholder word within.allows
    | singleton name => exact isWithin_of_children (carries.singleton name within.allows) rfl
    | applied head name args =>
      refine isWithin_applied ?_ below
      rw [List.length_map]
      exact carries.applied head name args.length within.allows
    | compound connective members => exact isWithin_combine below
    | _ => exact isWithin_iff.2 ⟨trivial, below⟩

/-! ### Normal form -/

/-- **Normal form is a matter of vocabulary**: in a type in normal form anything may occur that is tidy. -/
theorem IsNormal.isWithin (normal : t.IsNormal) : t.IsWithin .normal := by
  intro u occurs
  have tidy : u.IsTidy := normal u occurs
  obtain ⟨s⟩ := u
  cases s with
  | compound c members => exact fun _ => tidy
  | _ => exact trivial

/-- A type within a vocabulary of tidy types is in normal form. -/
theorem IsWithin.isNormal (within : t.IsWithin v) (tidy : v.onlyTidy) : t.IsNormal := by
  intro u occurs
  have allowed := within u occurs
  obtain ⟨s⟩ := u
  cases s with
  | compound c members => exact allowed tidy
  | _ => exact trivial

end Ty

end SignatureAlgebra
