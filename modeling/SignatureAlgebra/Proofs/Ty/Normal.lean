/-
**Normal form, and what connecting types gives.**

A type is in normal form when every compound type in it could have come from its constructor: it has
at least two members, all different, and none that the constructor would take apart, drop or be
absorbed by.

* `Ty.IsNormal` — the predicate, over all subterms; it can be evaluated.
* `Ty.combine_eq` — connecting types is a matter of their leaves alone: the first absorbing leaf, or
  else the first occurrences of the leaves other than the unit.
* `Ty.Covers` — connecting a type with another one changes nothing. What a part of a compound type
  covers, the whole covers too (`Ty.covers_combine_of_covers`), and the whole covers the part added to
  it (`Ty.covers_combine_right`).
-/
import SignatureAlgebra.Proofs.FirstOccurrences
import SignatureAlgebra.Ty.Compound

namespace SignatureAlgebra.Ty

/-! ### The predicate -/

/-- Whether a type is a compound type of that connective, written as such. -/
def isCompound (c : Connective) : Ty → Bool
  | ⟨.compound c' _⟩ => c' = c
  | _ => false

/-- A type that stays as it is as a member of a compound type. -/
def IsMember (c : Connective) (t : Ty) : Prop :=
  t.isCompound c = false ∧ t ≠ .any ∧ t ≠ .top ∧ t ≠ .bottom

instance (c : Connective) (t : Ty) : Decidable (t.IsMember c) :=
  inferInstanceAs (Decidable (_ ∧ _))

/-- Members of a compound type that its constructor leaves as they are. -/
structure AreMembers (c : Connective) (members : List Ty) : Prop where
  several : 2 ≤ members.length
  distinct : members.Nodup
  plain : ∀ t ∈ members, t.IsMember c

instance (c : Connective) (members : List Ty) : Decidable (AreMembers c members) :=
  decidable_of_iff (2 ≤ members.length ∧ members.Nodup ∧ ∀ t ∈ members, t.IsMember c)
    ⟨fun ⟨several, distinct, plain⟩ => ⟨several, distinct, plain⟩,
      fun ⟨several, distinct, plain⟩ => ⟨several, distinct, plain⟩⟩

/-- The outermost layer of a type is in normal form. -/
def IsTidy : Ty → Prop
  | ⟨.compound c members⟩ => AreMembers c members
  | _ => True

instance : ∀ t : Ty, Decidable t.IsTidy
  | ⟨.compound c members⟩ => inferInstanceAs (Decidable (AreMembers c members))
  | ⟨.base _⟩ | ⟨.placeholder _⟩ | ⟨.var _⟩ | ⟨.literal _⟩ | ⟨.logic _⟩ | ⟨.singleton _⟩
  | ⟨.applied _ _ _⟩ | ⟨.tuple _⟩ | ⟨.record _⟩ | ⟨.proc _ _⟩ => .isTrue trivial

/-- **Normal form**: every compound type in a type, at any depth, has members that its constructor
leaves as they are. -/
def IsNormal (t : Ty) : Prop := ∀ u ∈ t.subterms, u.IsTidy

instance (t : Ty) : Decidable t.IsNormal := inferInstanceAs (Decidable (∀ u ∈ t.subterms, u.IsTidy))

theorem IsNormal.tidy {t : Ty} (normal : t.IsNormal) : t.IsTidy := normal t t.self_mem_subterms

/-! ### Leaves -/

variable {c : Connective}

theorem eq_compound_of_isCompound {t : Ty} (compound : t.isCompound c = true) :
    ∃ members, t = ⟨.compound c members⟩ := by
  obtain ⟨s⟩ := t
  cases s with
  | compound c' members =>
    have same : c' = c := of_decide_eq_true compound
    subst same
    exact ⟨members, rfl⟩
  | _ => cases compound

theorem leaves_of_not_isCompound {t : Ty} (plain : t.isCompound c = false) : leaves c t = [t] := by
  apply leaves_of_ne
  rintro members rfl
  simp [isCompound] at plain

/-- A leaf is not taken apart any further. -/
theorem not_isCompound_of_mem_leaves (t : Ty) :
    ∀ {leaf : Ty}, leaf ∈ leaves c t → leaf.isCompound c = false := by
  induction t using Ty.induction with
  | step t ih =>
    intro leaf member
    by_cases compound : t.isCompound c = true
    · obtain ⟨members, rfl⟩ := eq_compound_of_isCompound compound
      rw [leaves_compound] at member
      obtain ⟨inner, isMember, isLeaf⟩ := List.mem_flatMap.1 member
      exact ih inner isMember isLeaf
    · have plain : t.isCompound c = false := by simpa using compound
      rw [leaves_of_not_isCompound plain] at member
      rw [List.mem_singleton.1 member]
      exact plain

/-- The type of the unit of a connective. -/
abbrev ofUnit (c : Connective) : Ty := ⟨.base c.unit⟩

theorem not_absorbs_unit (c : Connective) : c.absorbs (ofUnit c) = false := by
  cases c <;> decide

theorem absorbs_iff {t : Ty} : c.absorbs t = true ↔ t = .any ∨ t = ⟨.base c.zero⟩ := by
  simp only [Connective.absorbs, Bool.or_eq_true, decide_eq_true_eq]

theorem not_isCompound_of_absorbs {t : Ty} (absorbs : c.absorbs t = true) :
    t.isCompound c = false := by
  rcases absorbs_iff.1 absorbs with rfl | rfl <;> rfl

/-- The leaves that count: all but the unit. -/
def essence (c : Connective) (t : Ty) : List Ty := (leaves c t).filter (· ≠ ofUnit c)

theorem filter_leaves (c : Connective) (ts : List Ty) :
    (ts.flatMap (leaves c)).filter (· ≠ ofUnit c) = ts.flatMap (essence c) := by
  rw [List.filter_flatMap]
  rfl

/-! ### First occurrences -/

/-- **Adding types that are not there yet**, one after the other, appends the first occurrences of the new
ones. -/
theorem foldl_addNew (ts members : List Ty) :
    ts.foldl addNew members = members ++ (ts.removeAll members).eraseDups := by
  induction ts using List.reverseRecOn with
  | nil => exact (List.append_nil members).symm
  | append_singleton ts t ih =>
    have onwards : (ts ++ [t]).removeAll members = ts.removeAll members ++ [t].removeAll members :=
      List.filter_append ..
    rw [List.foldl_concat, ih, addNew, onwards]
    by_cases old : t ∈ members
    · have nothing : [t].removeAll members = [] :=
        removeAll_of_subset fun u isLast => List.mem_singleton.1 isLast ▸ old
      rw [if_pos (List.mem_append_left _ old), nothing, List.append_nil]
    · have isNew : [t].removeAll members = [t] := by simp [List.removeAll, old]
      have known : t ∈ members ++ (ts.removeAll members).eraseDups ↔ t ∈ ts.removeAll members := by
        rw [List.mem_append, List.mem_eraseDups, or_iff_right old]
      rw [isNew, eraseDups_concat]
      by_cases present : t ∈ ts.removeAll members
      · rw [if_pos present, if_pos (known.2 present)]
      · rw [if_neg present, if_neg (mt known.1 present), List.append_assoc]

theorem mem_foldl_addNew {t : Ty} {ts members : List Ty} :
    t ∈ ts.foldl addNew members ↔ t ∈ members ∨ t ∈ ts := by
  rw [foldl_addNew]
  by_cases old : t ∈ members <;> simp [List.removeAll, old]

/-- Types that are there already add nothing. -/
theorem foldl_addNew_of_subset {ts members : List Ty} (known : ∀ t ∈ ts, t ∈ members) :
    ts.foldl addNew members = members := by
  rw [foldl_addNew, removeAll_of_subset known]
  exact List.append_nil members

/-! ### Connecting types, by their leaves -/

/-- What adding leaves to members comes to. -/
def addLeaves (c : Connective) (ls members : List Ty) : Except Ty (List Ty) :=
  match ls.find? c.absorbs with
  | some absorbing => .error absorbing
  | none => .ok ((ls.filter (· ≠ ofUnit c)).foldl addNew members)

theorem addLeaves_append (c : Connective) (ls ls' members : List Ty) :
    addLeaves c (ls ++ ls') members =
      match addLeaves c ls members with
      | .error absorbing => .error absorbing
      | .ok more => addLeaves c ls' more := by
  simp only [addLeaves, List.find?_append, List.filter_append, List.foldl_append]
  cases ls.find? c.absorbs <;> rfl

theorem addLeaves_singleton (c : Connective) (t : Ty) (members : List Ty) :
    addLeaves c [t] members =
      if c.absorbs t then .error t else if t = ofUnit c then .ok members
      else .ok (addNew members t) := by
  by_cases absorbs : c.absorbs t = true
  · simp [addLeaves, absorbs]
  · by_cases unit : t = ofUnit c
    · subst unit
      simp [addLeaves, not_absorbs_unit]
    · simp [addLeaves, absorbs, unit]

theorem addMember_of_not_isCompound {t : Ty} (plain : t.isCompound c = false) (members : List Ty) :
    addMember c t members = addLeaves c [t] members := by
  rw [addLeaves_singleton]
  obtain ⟨s⟩ := t
  cases s with
  | compound c' inner =>
    have different : c' ≠ c := of_decide_eq_false plain
    have kept : c.absorbs ⟨.compound c' inner⟩ = false := by simp [Connective.absorbs]
    rw [addMember, if_neg different, kept]
    simp
  | _ => rfl

theorem addMembers_of_forall {ts : List Ty}
    (each : ∀ t ∈ ts, ∀ members, addMember c t members = addLeaves c (leaves c t) members)
    (members : List Ty) : addMembers c ts members = addLeaves c (ts.flatMap (leaves c)) members := by
  induction ts generalizing members with
  | nil => rfl
  | cons first rest ih =>
    rw [addMembers, List.flatMap_cons, addLeaves_append, each first List.mem_cons_self]
    cases addLeaves c (leaves c first) members with
    | error absorbing => rfl
    | ok more => exact ih (fun t member => each t (List.mem_cons_of_mem _ member)) more

/-- **Adding a type adds its leaves.** -/
theorem addMember_eq (c : Connective) (t : Ty) :
    ∀ members, addMember c t members = addLeaves c (leaves c t) members := by
  induction t using Ty.induction with
  | step t ih =>
    intro members
    by_cases compound : t.isCompound c = true
    · obtain ⟨inner, rfl⟩ := eq_compound_of_isCompound compound
      rw [addMember, if_pos rfl, leaves_compound]
      exact addMembers_of_forall ih members
    · have plain : t.isCompound c = false := by simpa using compound
      rw [addMember_of_not_isCompound plain, leaves_of_not_isCompound plain]

/-- **Connecting types is a matter of their leaves**: the first absorbing leaf if there is one, else
what the first occurrences of the leaves other than the unit collapse to. -/
theorem combine_eq (c : Connective) (ts : List Ty) :
    combine c ts =
      match (ts.flatMap (leaves c)).find? c.absorbs with
      | some absorbing => absorbing
      | none => collapse c (ts.flatMap (essence c)).eraseDups := by
  rw [combine, addMembers_of_forall fun t _ => addMember_eq c t, addLeaves, filter_leaves, foldl_addNew,
    List.removeAll_nil, List.nil_append]
  cases (ts.flatMap (leaves c)).find? c.absorbs <;> rfl

/-- No leaf of these types absorbs the others. -/
def NothingAbsorbs (c : Connective) (ts : List Ty) : Prop :=
  ∀ leaf ∈ ts.flatMap (leaves c), c.absorbs leaf = false

theorem nothingAbsorbs_iff {ts : List Ty} :
    NothingAbsorbs c ts ↔ (ts.flatMap (leaves c)).find? c.absorbs = none := by
  rw [List.find?_eq_none]
  exact forall₂_congr fun leaf _ => Bool.not_eq_true _ ▸ Iff.rfl

theorem combine_of_nothingAbsorbs {ts : List Ty} (quiet : NothingAbsorbs c ts) :
    combine c ts = collapse c (ts.flatMap (essence c)).eraseDups := by
  rw [combine_eq, nothingAbsorbs_iff.1 quiet]

/-- Connecting types gives an absorbing word exactly when there is one among their leaves. -/
theorem absorbs_combine_of_not {ts : List Ty} (loud : ¬ NothingAbsorbs c ts) :
    c.absorbs (combine c ts) = true := by
  rw [combine_eq]
  cases found : (ts.flatMap (leaves c)).find? c.absorbs with
  | some absorbing => exact List.find?_some found
  | none => exact absurd (nothingAbsorbs_iff.2 found) loud

theorem nothingAbsorbs_of_absorbs_combine_eq_false {ts : List Ty}
    (silent : c.absorbs (combine c ts) = false) : NothingAbsorbs c ts := by
  by_contra loud
  rw [absorbs_combine_of_not loud] at silent
  cases silent

/-- What counts of leaves is no unit, and is not taken apart. -/
theorem essence_spec {t leaf : Ty} (member : leaf ∈ essence c t) :
    leaf ∈ leaves c t ∧ leaf ≠ ofUnit c ∧ leaf.isCompound c = false := by
  obtain ⟨isLeaf, notUnit⟩ := List.mem_filter.1 member
  exact ⟨isLeaf, by simpa using notUnit, not_isCompound_of_mem_leaves t isLeaf⟩

/-- The leaves of what members that are not taken apart collapse to: these members, or the unit. -/
theorem leaves_collapse {members : List Ty} (plain : ∀ t ∈ members, t.isCompound c = false) :
    leaves c (collapse c members) = if members = [] then [ofUnit c] else members := by
  have single : ∀ t ∈ members, leaves c t = [t] := fun t member => leaves_of_not_isCompound (plain t member)
  match members, single with
  | [], _ => exact leaves_of_not_isCompound rfl
  | [t], single => exact single t List.mem_cons_self
  | first :: second :: rest, single =>
    have flat : (first :: second :: rest).flatMap (leaves c) = first :: second :: rest := by
      rw [List.flatMap_congr single]
      simp
    exact (leaves_compound c _).trans flat

/-- What a list of members of their own kind collapses to has these members as its leaves that count. -/
theorem essence_collapse {members : List Ty}
    (plain : ∀ t ∈ members, t ≠ ofUnit c ∧ t.isCompound c = false) :
    essence c (collapse c members) = members := by
  rw [essence, leaves_collapse fun t member => (plain t member).2]
  by_cases nothing : members = []
  · simp [nothing]
  · rw [if_neg nothing]
    exact List.filter_eq_self.2 fun t member => by simpa using (plain t member).1

/-- **What counts of connected types** are the first occurrences of what counts of each. -/
theorem essence_combine {ts : List Ty} (quiet : NothingAbsorbs c ts) :
    essence c (combine c ts) = (ts.flatMap (essence c)).eraseDups := by
  rw [combine_of_nothingAbsorbs quiet]
  apply essence_collapse
  intro t member
  obtain ⟨u, _, counts⟩ := List.mem_flatMap.1 (List.mem_eraseDups.1 member)
  exact (essence_spec counts).2

/-- Nothing absorbs in what is connected quietly. -/
theorem nothingAbsorbs_combine {ts : List Ty} (quiet : NothingAbsorbs c ts) :
    NothingAbsorbs c [combine c ts] := by
  intro leaf member
  by_cases unit : leaf = ofUnit c
  · rw [unit]
    exact not_absorbs_unit c
  · have counts : leaf ∈ essence c (combine c ts) := by
      simp only [List.flatMap_cons, List.flatMap_nil, List.append_nil] at member
      exact List.mem_filter.2 ⟨member, by simpa using unit⟩
    rw [essence_combine quiet, List.mem_eraseDups] at counts
    obtain ⟨t, isMember, inEssence⟩ := List.mem_flatMap.1 counts
    exact quiet leaf (List.mem_flatMap.2 ⟨t, isMember, (essence_spec inEssence).1⟩)

/-! ### Types that are built already -/

theorem combine_cons_of_absorbs {t : Ty} (absorbs : c.absorbs t = true) (ts : List Ty) :
    combine c (t :: ts) = t := by
  have single : leaves c t = [t] := leaves_of_not_isCompound (not_isCompound_of_absorbs absorbs)
  have found : ((t :: ts).flatMap (leaves c)).find? c.absorbs = some t := by
    simp [single, absorbs]
  rw [combine_eq, found]

/-- Building a compound type again changes nothing. -/
theorem combine_combine (c : Connective) (ts : List Ty) : combine c [combine c ts] = combine c ts := by
  by_cases absorbs : c.absorbs (combine c ts) = true
  · exact combine_cons_of_absorbs absorbs []
  · have quiet : NothingAbsorbs c ts :=
      nothingAbsorbs_of_absorbs_combine_eq_false (by simpa using absorbs)
    rw [combine_of_nothingAbsorbs (nothingAbsorbs_combine quiet), List.flatMap_cons,
      List.flatMap_nil, List.append_nil, essence_combine quiet, eraseDups_of_nodup (nodup_eraseDups _),
      ← combine_of_nothingAbsorbs quiet]

theorem IsMember.ne_ofUnit {t : Ty} (isMember : t.IsMember c) : t ≠ ofUnit c := by
  cases c
  · exact isMember.2.2.2
  · exact isMember.2.2.1

theorem IsMember.not_absorbs {t : Ty} (isMember : t.IsMember c) : c.absorbs t = false := by
  cases c <;>
    simp [Connective.absorbs, Connective.zero, isMember.2.1, isMember.2.2.1, isMember.2.2.2]

/-- **A type in normal form is built already.** -/
theorem IsTidy.combine_singleton {t : Ty} (tidy : t.IsTidy) (c : Connective) : combine c [t] = t := by
  by_cases compound : t.isCompound c = true
  · obtain ⟨members, rfl⟩ := eq_compound_of_isCompound compound
    obtain ⟨several, distinct, plain⟩ : AreMembers c members := tidy
    have single : members.flatMap (leaves c) = members := by
      rw [List.flatMap_congr fun t member => leaves_of_not_isCompound (plain t member).1]
      simp
    have quiet : NothingAbsorbs c [⟨.compound c members⟩] := by
      intro leaf member
      rw [List.flatMap_singleton, leaves_compound, single] at member
      exact (plain leaf member).not_absorbs
    have all : essence c ⟨.compound c members⟩ = members := by
      rw [essence, leaves_compound, single]
      exact List.filter_eq_self.2 fun t member => by simpa using (plain t member).ne_ofUnit
    rw [combine_of_nothingAbsorbs quiet, List.flatMap_singleton, all, eraseDups_of_nodup distinct]
    rcases members with _ | ⟨first, _ | ⟨second, rest⟩⟩
    · cases several
    · simp at several
    · rfl
  · have alone : leaves c t = [t] := leaves_of_not_isCompound (by simpa using compound)
    by_cases absorbs : c.absorbs t = true
    · exact combine_cons_of_absorbs absorbs []
    · have quiet : NothingAbsorbs c [t] := by
        intro leaf member
        rw [List.flatMap_singleton, alone, List.mem_singleton] at member
        rw [member]
        simpa using absorbs
      rw [combine_of_nothingAbsorbs quiet, List.flatMap_singleton, essence, alone]
      by_cases unit : t = ofUnit c
      · subst unit
        simp [collapse]
      · simp [unit, collapse, eraseDups_of_nodup]

/-! ### Covering -/

/-- Connecting a type with another one gives the first again. -/
def Covers (c : Connective) (t u : Ty) : Prop := combine c [t, u] = t

/-- A type that is built already covers every type whose leaves it has. -/
theorem covers_of_subset {t u : Ty} (built : combine c [t] = t) (quiet : NothingAbsorbs c [t, u])
    (part : ∀ leaf ∈ essence c u, leaf ∈ essence c t) : Covers c t u := by
  have alone : NothingAbsorbs c [t] := fun leaf member =>
    quiet leaf (by simp only [List.flatMap_cons, List.mem_append] at member ⊢; simp_all)
  have same : ([t, u].flatMap (essence c)).eraseDups = ([t].flatMap (essence c)).eraseDups := by
    simp only [List.flatMap_cons, List.flatMap_nil, List.append_nil]
    exact eraseDups_append_of_subset part
  rw [Covers, combine_of_nothingAbsorbs quiet, same, ← combine_of_nothingAbsorbs alone, built]

/-- A covered type has no leaves of its own, and nothing absorbs, unless the covering type does. -/
theorem Covers.subset {t u : Ty} (covers : Covers c t u) (silent : c.absorbs t = false) :
    NothingAbsorbs c [t, u] ∧ ∀ leaf ∈ essence c u, leaf ∈ essence c t := by
  have quiet : NothingAbsorbs c [t, u] :=
    nothingAbsorbs_of_absorbs_combine_eq_false (by rw [covers]; exact silent)
  refine ⟨quiet, fun leaf counts => ?_⟩
  have all : essence c t = ([t, u].flatMap (essence c)).eraseDups := by
    rw [← essence_combine quiet, covers]
  rw [all, List.mem_eraseDups]
  exact List.mem_flatMap.2 ⟨u, by simp, counts⟩

theorem covers_self {t : Ty} (built : combine c [t] = t) : Covers c t t := by
  by_cases absorbs : c.absorbs t = true
  · exact combine_cons_of_absorbs absorbs [t]
  · have quiet : NothingAbsorbs c [t] :=
      nothingAbsorbs_of_absorbs_combine_eq_false (by rw [built]; simpa using absorbs)
    refine covers_of_subset built (fun leaf member => quiet leaf ?_) fun _ counts => counts
    simpa using member

/-- **The whole covers what was added to it.** -/
theorem covers_combine_right (c : Connective) (t u : Ty) : Covers c (combine c [t, u]) u := by
  by_cases absorbs : c.absorbs (combine c [t, u]) = true
  · exact combine_cons_of_absorbs absorbs [u]
  · have quiet : NothingAbsorbs c [t, u] :=
      nothingAbsorbs_of_absorbs_combine_eq_false (by simpa using absorbs)
    have whole := nothingAbsorbs_combine quiet
    refine covers_of_subset (combine_combine c _) (fun leaf member => ?_) fun leaf counts => ?_
    · rw [List.flatMap_cons, List.mem_append] at member
      rcases member with inWhole | added
      · exact whole leaf (by simpa using inWhole)
      · exact quiet leaf (by simp at added; simp [added])
    · rw [essence_combine quiet, List.mem_eraseDups]
      exact List.mem_flatMap.2 ⟨u, by simp, counts⟩

/-- **The whole covers what a part covers.** -/
theorem covers_combine_of_covers {t u : Ty} (covers : Covers c t u) (v : Ty) :
    Covers c (combine c [t, v]) u := by
  by_cases absorbs : c.absorbs (combine c [t, v]) = true
  · exact combine_cons_of_absorbs absorbs [u]
  · have quiet : NothingAbsorbs c [t, v] :=
      nothingAbsorbs_of_absorbs_combine_eq_false (by simpa using absorbs)
    have whole := nothingAbsorbs_combine quiet
    have silent : c.absorbs t = false := by
      by_contra loud
      rw [combine_cons_of_absorbs (by simpa using loud)] at absorbs
      exact loud (by simpa using absorbs)
    obtain ⟨part, inside⟩ := covers.subset silent
    refine covers_of_subset (combine_combine c _) (fun leaf member => ?_) fun leaf counts => ?_
    · rw [List.flatMap_cons, List.mem_append] at member
      rcases member with inWhole | covered
      · exact whole leaf (by simpa using inWhole)
      · exact part leaf (by simp at covered; simp [covered])
    · rw [essence_combine quiet, List.mem_eraseDups]
      exact List.mem_flatMap.2 ⟨t, by simp, inside leaf counts⟩

end SignatureAlgebra.Ty
