/-
**Building types again.**

A replacement builds every compound type again, from members in which the names are replaced already,
so what it gives is in normal form whenever what it puts in place of names is.

* `Ty.mem_leaves_combine`, `Ty.mem_subterms_combine` — where the leaves of connected types come from, and
  all that occurs in them.
* `Ty.isNormal_combine`, `Ty.isNormal_replace` — what is built is in normal form.
* `Ty.normalize_eq_self` — a type in normal form is built to itself; `Ty.normalize_normalizes` — the statement
  for all types.
-/
import SignatureAlgebra.Proofs.Ty.Normal
import SignatureAlgebra.Ty.Replacement

namespace SignatureAlgebra

namespace Ty

variable {c : Connective}

/-! ### What occurs in connected types -/

theorem mem_subterms_iff {t u : Ty} :
    u ∈ t.subterms ↔ u = t ∨ ∃ child ∈ t.children, u ∈ child.subterms := by
  rw [subterms_eq, List.mem_cons, List.mem_flatMap]

theorem mem_freeVars {t : Ty} {name : Name} : name ∈ t.freeVars ↔ var name ∈ t.subterms := by
  rw [freeVars, List.mem_filterMap]
  constructor
  · rintro ⟨u, occurs, found⟩
    split at found
    · obtain rfl := Option.some.inj found
      exact occurs
    · cases found
  · exact fun occurs => ⟨var name, occurs, rfl⟩

theorem mem_subterms_of_mem_leaves (t : Ty) :
    ∀ {leaf u : Ty}, leaf ∈ leaves c t → u ∈ leaf.subterms → u ∈ t.subterms := by
  induction t using Ty.induction with
  | step t ih =>
    intro leaf u isLeaf occurs
    by_cases compound : t.isCompound c = true
    · obtain ⟨members, rfl⟩ := eq_compound_of_isCompound compound
      rw [leaves_compound] at isLeaf
      obtain ⟨inner, isMember, inInner⟩ := List.mem_flatMap.1 isLeaf
      exact mem_subterms_iff.2 (Or.inr ⟨inner, isMember, ih inner isMember inInner occurs⟩)
    · rw [leaves_of_not_isCompound (by simpa using compound), List.mem_singleton] at isLeaf
      rwa [← isLeaf]

/-- The leaves of connected types are the word that adds nothing, or leaves of what is connected. -/
theorem mem_leaves_combine {ts : List Ty} {leaf : Ty} (isLeaf : leaf ∈ leaves c (combine c ts)) :
    leaf = ofUnit c ∨ ∃ t ∈ ts, leaf ∈ leaves c t := by
  by_cases unit : leaf = ofUnit c
  · exact Or.inl unit
  right
  rw [combine_eq] at isLeaf
  cases found : (ts.flatMap (leaves c)).find? c.absorbs with
  | some absorbing =>
    have absorbs : c.absorbs absorbing = true := List.find?_some found
    rw [found, leaves_of_not_isCompound (not_isCompound_of_absorbs absorbs),
      List.mem_singleton] at isLeaf
    exact List.mem_flatMap.1 (isLeaf ▸ List.mem_of_find?_eq_some found)
  | none =>
    have quiet : NothingAbsorbs c ts := nothingAbsorbs_iff.2 found
    rw [found, ← combine_of_nothingAbsorbs quiet] at isLeaf
    have counts : leaf ∈ essence c (combine c ts) := List.mem_filter.2 ⟨isLeaf, by simpa using unit⟩
    rw [essence_combine quiet, List.mem_eraseDups] at counts
    obtain ⟨t, isMember, counts⟩ := List.mem_flatMap.1 counts
    exact ⟨t, isMember, (essence_spec counts).1⟩

/-- Where nothing absorbs, only the word that adds nothing is lost of the leaves of what is
connected. -/
theorem mem_leaves_of_quiet {ts : List Ty} (quiet : NothingAbsorbs c ts) {t leaf : Ty}
    (isMember : t ∈ ts) (isLeaf : leaf ∈ leaves c t) :
    leaf = ofUnit c ∨ leaf ∈ leaves c (combine c ts) := by
  by_cases unit : leaf = ofUnit c
  · exact Or.inl unit
  · have counts : leaf ∈ essence c t := List.mem_filter.2 ⟨isLeaf, by simpa using unit⟩
    have all : leaf ∈ essence c (combine c ts) := by
      rw [essence_combine quiet, List.mem_eraseDups]
      exact List.mem_flatMap.2 ⟨t, isMember, counts⟩
    exact Or.inr (essence_spec all).1

/-- A leaf that does not absorb and counts is a member of its own kind. -/
theorem isMember_of_mem_essence {t leaf : Ty} (counts : leaf ∈ essence c t)
    (silent : c.absorbs leaf = false) : leaf.IsMember c := by
  obtain ⟨_, notUnit, plain⟩ := essence_spec counts
  simp only [Connective.absorbs, Bool.or_eq_false_iff, decide_eq_false_iff_not] at silent
  refine ⟨plain, silent.1, ?_, ?_⟩ <;> cases c
  · exact silent.2
  · exact notUnit
  · exact notUnit
  · exact silent.2

/-- **What occurs in connected types**: the word that adds nothing, members that are connected as they
are, and what occurs in the types that are connected. -/
theorem mem_subterms_combine {ts : List Ty} {u : Ty} (occurs : u ∈ (combine c ts).subterms) :
    u = ofUnit c ∨ (∃ members, AreMembers c members ∧ u = ⟨.compound c members⟩) ∨
      ∃ t ∈ ts, u ∈ t.subterms := by
  have inLeaf : ∀ {leaf : Ty}, leaf ∈ ts.flatMap (leaves c) → u ∈ leaf.subterms →
      ∃ t ∈ ts, u ∈ t.subterms := by
    intro leaf isLeaf occurs
    obtain ⟨t, isMember, inType⟩ := List.mem_flatMap.1 isLeaf
    exact ⟨t, isMember, mem_subterms_of_mem_leaves t inType occurs⟩
  have counted : ∀ {leaf : Ty}, leaf ∈ (ts.flatMap (essence c)).eraseDups →
      ∃ t ∈ ts, leaf ∈ essence c t := fun member => List.mem_flatMap.1 (List.mem_eraseDups.1 member)
  rw [combine_eq] at occurs
  cases found : (ts.flatMap (leaves c)).find? c.absorbs with
  | some absorbing =>
    rw [found] at occurs
    exact Or.inr (Or.inr (inLeaf (List.mem_of_find?_eq_some found) occurs))
  | none =>
    rw [found] at occurs
    have quiet : NothingAbsorbs c ts := nothingAbsorbs_iff.2 found
    have plain : ∀ leaf ∈ (ts.flatMap (essence c)).eraseDups, leaf.IsMember c := by
      intro leaf member
      obtain ⟨t, isMember, counts⟩ := counted member
      exact isMember_of_mem_essence counts
        (quiet leaf (List.mem_flatMap.2 ⟨t, isMember, (essence_spec counts).1⟩))
    have inside : ∀ leaf ∈ (ts.flatMap (essence c)).eraseDups, u ∈ leaf.subterms →
        ∃ t ∈ ts, u ∈ t.subterms := by
      intro leaf member occurs
      obtain ⟨t, isMember, counts⟩ := counted member
      exact inLeaf (List.mem_flatMap.2 ⟨t, isMember, (essence_spec counts).1⟩) occurs
    have distinct := nodup_eraseDups (ts.flatMap (essence c))
    match members : (ts.flatMap (essence c)).eraseDups, distinct, plain, inside, occurs with
    | [], _, _, _, occurs =>
      obtain same | ⟨_, impossible, _⟩ := mem_subterms_iff.1 occurs
      · exact Or.inl same
      · cases impossible
    | [leaf], _, _, inside, occurs => exact Or.inr (Or.inr (inside leaf List.mem_cons_self occurs))
    | first :: second :: rest, distinct, plain, inside, occurs =>
      obtain same | ⟨leaf, isMember, below⟩ := mem_subterms_iff.1 occurs
      · exact Or.inr (Or.inl ⟨_, ⟨by simp, distinct, plain⟩, same⟩)
      · exact Or.inr (Or.inr (inside leaf isMember below))

/-! ### What is built is in normal form -/

theorem isNormal_iff {t : Ty} : t.IsNormal ↔ t.IsTidy ∧ ∀ child ∈ t.children, child.IsNormal := by
  constructor
  · intro normal
    exact ⟨normal.tidy, fun child isChild u occurs =>
      normal u (mem_subterms_iff.2 (Or.inr ⟨child, isChild, occurs⟩))⟩
  · rintro ⟨tidy, below⟩ u occurs
    obtain rfl | ⟨child, isChild, inChild⟩ := mem_subterms_iff.1 occurs
    · exact tidy
    · exact below child isChild u inChild

theorem IsNormal.of_mem_children {t child : Ty} (normal : t.IsNormal) (isChild : child ∈ t.children) :
    child.IsNormal := (isNormal_iff.1 normal).2 child isChild

/-- **Connecting types in normal form** gives a type in normal form. -/
theorem isNormal_combine {ts : List Ty} (normal : ∀ t ∈ ts, t.IsNormal) : (combine c ts).IsNormal := by
  intro u occurs
  obtain rfl | ⟨members, connected, rfl⟩ | ⟨t, isMember, inType⟩ := mem_subterms_combine occurs
  · exact trivial
  · exact connected
  · exact normal t isMember u inType

theorem isNormal_union {ts : List Ty} (normal : ∀ t ∈ ts, t.IsNormal) : (union ts).IsNormal :=
  isNormal_combine normal

/-- A type without members of its own. -/
theorem isNormal_of_children {t : Ty} (tidy : t.IsTidy) (none : t.children = []) : t.IsNormal :=
  isNormal_iff.2 ⟨tidy, fun child isChild => by rw [none] at isChild; cases isChild⟩

theorem isNormal_applied {head : Head} {name : TypeName} {args : List Ty}
    (normal : ∀ t ∈ args, t.IsNormal) : (⟨.applied head name args⟩ : Ty).IsNormal :=
  isNormal_iff.2 ⟨trivial, normal⟩

theorem isNormal_replicate_any (n : Nat) : ∀ t ∈ List.replicate n any, t.IsNormal := by
  intro t member
  rw [List.eq_of_mem_replicate member]
  exact isNormal_of_children trivial rfl

theorem combine_singleton_compound (c : Connective) (members : List Ty) :
    combine c [⟨.compound c members⟩] = combine c members := by
  rw [combine, combine, addMembers, addMember, if_pos rfl]
  cases addMembers c members [] <;> rfl

/-- Members that a constructor leaves as they are make the compound type they are written as. -/
theorem AreMembers.combine_eq {members : List Ty} (connected : AreMembers c members) :
    combine c members = ⟨.compound c members⟩ := by
  have tidy : IsTidy ⟨.compound c members⟩ := connected
  rw [← combine_singleton_compound, tidy.combine_singleton]

end Ty

/-- What a replacement puts in place of names is in normal form. -/
structure Replacement.IsNormal (r : Replacement) : Prop where
  var : ∀ name, (r.var name).IsNormal
  placeholder : ∀ word, (r.placeholder word).IsNormal

theorem Replacement.isNormal_identity : identity.IsNormal where
  var _ := Ty.isNormal_of_children trivial rfl
  placeholder _ := Ty.isNormal_of_children trivial rfl

namespace Ty

variable {c : Connective}

/-- **Replacing gives a type in normal form**, whatever the type was. -/
theorem isNormal_replace {r : Replacement} (normal : r.IsNormal) (t : Ty) : (t.replace r).IsNormal := by
  induction t using Ty.induction with
  | step t ih =>
    obtain ⟨s⟩ := t
    have below : ∀ child ∈ (s.map (replace r)).toList, child.IsNormal := by
      intro child isChild
      rw [Shape.toList_map] at isChild
      obtain ⟨u, isPart, rfl⟩ := List.mem_map.1 isChild
      exact ih u isPart
    rw [replace_node]
    cases s with
    | var name => exact normal.var name
    | placeholder word => exact normal.placeholder word
    | compound connective members => exact isNormal_combine below
    | _ => exact isNormal_iff.2 ⟨trivial, below⟩

/-- **A type in normal form is built to itself.** -/
theorem normalize_eq_self {t : Ty} (normal : t.IsNormal) : t.normalize = t := by
  induction t using Ty.induction with
  | step t ih =>
    obtain ⟨s⟩ := t
    have each : ∀ u ∈ s.toList, u.normalize = id u := fun u isPart =>
      ih u isPart (normal.of_mem_children isPart)
    have same : s.map normalize = s := (Shape.map_congr each).trans s.map_id
    have built : normalize ⟨s⟩ = Replacement.identity.build s := by
      rw [normalize, replace_node]
      exact congrArg _ same
    rw [built]
    cases s with
    | compound connective members =>
      have connected : AreMembers connective members := normal.tidy
      exact connected.combine_eq
    | _ => rfl

theorem isNormal_normalize (t : Ty) : t.normalize.IsNormal := isNormal_replace Replacement.isNormal_identity t

/-- **Building again is normalizing**: whatever the type, what is built is in normal form; it is the type itself
exactly if that was in normal form already; and building it once more changes nothing. -/
theorem normalize_normalizes (t : Ty) :
    t.normalize.IsNormal ∧ (t.normalize = t ↔ t.IsNormal) ∧ t.normalize.normalize = t.normalize := by
  have normal : t.normalize.IsNormal := isNormal_normalize t
  refine ⟨normal, ⟨fun same => ?_, normalize_eq_self⟩, normalize_eq_self normal⟩
  rw [← same]
  exact normal

/-- The inner intersection has one member, a union, whose members the outer union takes for its own. -/
example :
    let inner : Ty := ⟨.compound .intersection [⟨.compound .union [nil, boolean]⟩, top]⟩
    normalize ⟨.compound .union [void, inner, ⟨.compound .union [nil]⟩, bottom]⟩ =
      ⟨.compound .union [void, nil, boolean]⟩ := by
  decide

end Ty

end SignatureAlgebra
