/-
**One replacement after another.**

Two replacements come to a single one, as long as one of them puts no word in place of a name that
absorbs other members or adds nothing to them. If it is the first, no member of a compound type is lost
before the second sees it: the first merges members that become equal and takes nested ones apart, and
the second gives the same for merged members and for members taken apart. If it is the second, what
absorbs the others before it still does so after it, and nothing else does.

* `Ty.Alike` — lists of members that add the same to any other members.
* `Ty.replace_combine`, `Ty.replace_combine_of_solid` — replacing in connected types is connecting
  replaced types.
* `Ty.replace_replace`, `Ty.replace_replace_of_solid` — two replacements as one; `Ty.replace_congr` —
  replacements that agree on what occurs.
-/
import SignatureAlgebra.Proofs.Ty.Rebuilding

namespace SignatureAlgebra

namespace Ty

variable {c : Connective}

/-! ### Members that add the same -/

/-- **Lists of members that add the same** to whatever is there already. -/
def Alike (c : Connective) (ts us : List Ty) : Prop :=
  ∀ members, addMembers c ts members = addMembers c us members

theorem addMembers_eq (c : Connective) (ts members : List Ty) :
    addMembers c ts members = addLeaves c (ts.flatMap (leaves c)) members :=
  addMembers_of_forall (fun t _ => addMember_eq c t) members

theorem addMembers_append (c : Connective) (ts us members : List Ty) :
    addMembers c (ts ++ us) members =
      match addMembers c ts members with
      | .error absorbing => .error absorbing
      | .ok more => addMembers c us more := by
  rw [addMembers_eq, List.flatMap_append, addLeaves_append, ← addMembers_eq]
  cases addMembers c ts members with
  | error absorbing => rfl
  | ok more => exact (addMembers_eq c us more).symm

namespace Alike

variable {ts us vs ts' us' : List Ty}

theorem refl (ts : List Ty) : Alike c ts ts := fun _ => rfl

theorem trans (first : Alike c ts us) (second : Alike c us vs) : Alike c ts vs := fun members =>
  (first members).trans (second members)

theorem append (front : Alike c ts us) (back : Alike c ts' us') : Alike c (ts ++ ts') (us ++ us') := by
  intro members
  rw [addMembers_append, addMembers_append, front members]
  cases addMembers c us members with
  | error absorbing => rfl
  | ok more => exact back more

/-- Connecting members that add the same gives the same. -/
theorem combine_eq (alike : Alike c ts us) : combine c ts = combine c us := by
  rw [combine, combine, alike []]

end Alike

theorem alike_unit (c : Connective) : Alike c [ofUnit c] [] := by
  have single : leaves c (ofUnit c) = [ofUnit c] := leaves_of_not_isCompound rfl
  intro members
  rw [addMembers_eq, addMembers_eq, List.flatMap_singleton, single]
  simp [addLeaves, not_absorbs_unit]

/-- Adding first occurrences is adding all. -/
theorem foldl_addNew_eraseDups (ts members : List Ty) :
    ts.eraseDups.foldl addNew members = ts.foldl addNew members := by
  induction ts using List.reverseRecOn with
  | nil => rfl
  | append_singleton ts t ih =>
    rw [eraseDups_concat, List.foldl_concat]
    by_cases present : t ∈ ts
    · rw [if_pos present, ih, addNew, if_pos (mem_foldl_addNew.2 (Or.inr present))]
    · rw [if_neg present, List.foldl_concat, ih]

/-- **Connected types add what each of them adds.** -/
theorem alike_combine (c : Connective) (ts : List Ty) : Alike c [combine c ts] ts := by
  intro members
  rw [addMembers_eq, addMembers_eq, List.flatMap_singleton]
  cases found : (ts.flatMap (leaves c)).find? c.absorbs with
  | some absorbing =>
    have whole : combine c ts = absorbing := by rw [Ty.combine_eq, found]
    have absorbs : c.absorbs absorbing = true := List.find?_some found
    rw [whole, leaves_of_not_isCompound (not_isCompound_of_absorbs absorbs)]
    simp [addLeaves, found, absorbs]
  | none =>
    have quiet : NothingAbsorbs c ts := nothingAbsorbs_iff.2 found
    have inWhole : (leaves c (combine c ts)).find? c.absorbs = none := by
      simpa using nothingAbsorbs_iff.1 (nothingAbsorbs_combine quiet)
    have counts : (leaves c (combine c ts)).filter (· ≠ ofUnit c) =
        (ts.flatMap (essence c)).eraseDups := essence_combine quiet
    rw [addLeaves, addLeaves, inWhole, found, counts, filter_leaves, foldl_addNew_eraseDups]

/-- A member that is there already adds nothing more. -/
theorem alike_of_mem {ts : List Ty} {t : Ty} (known : t ∈ ts) : Alike c (ts ++ [t]) ts := by
  intro members
  rw [addMembers_append, addMembers_eq]
  cases found : (ts.flatMap (leaves c)).find? c.absorbs with
  | some absorbing => simp [addLeaves, found]
  | none =>
    have inPart : ∀ leaf ∈ leaves c t, leaf ∈ ts.flatMap (leaves c) := fun leaf member =>
      List.mem_flatMap.2 ⟨t, known, member⟩
    have none : (leaves c t).find? c.absorbs = none :=
      List.find?_eq_none.2 fun leaf member => List.find?_eq_none.1 found leaf (inPart leaf member)
    simp only [addLeaves, found, addMembers_eq, List.flatMap_singleton, none]
    rw [foldl_addNew_of_subset]
    intro leaf member
    refine mem_foldl_addNew.2 (Or.inr ?_)
    obtain ⟨isLeaf, counts⟩ := List.mem_filter.1 member
    exact List.mem_filter.2 ⟨inPart leaf isLeaf, counts⟩

theorem alike_flatMap {f : Ty → Ty} {g : Ty → List Ty} {ts : List Ty}
    (each : ∀ t ∈ ts, Alike c [f t] (g t)) : Alike c (ts.map f) (ts.flatMap g) := by
  induction ts with
  | nil => exact Alike.refl []
  | cons t rest ih =>
    have front : Alike c [f t] (g t) := each t List.mem_cons_self
    exact front.append (ih fun u member => each u (List.mem_cons_of_mem _ member))

theorem alike_map_filter {f : Ty → Ty} (unit : f (ofUnit c) = ofUnit c) (ts : List Ty) :
    Alike c (ts.map f) ((ts.filter (· ≠ ofUnit c)).map f) := by
  induction ts with
  | nil => exact Alike.refl []
  | cons t rest ih =>
    by_cases dropped : t = ofUnit c
    · have rest' : (t :: rest).filter (· ≠ ofUnit c) = rest.filter (· ≠ ofUnit c) := by
        simp [dropped]
      have nothing : Alike c [f t] [] := by
        rw [dropped, unit]
        exact alike_unit c
      rw [rest']
      exact nothing.append ih
    · have kept : (t :: rest).filter (· ≠ ofUnit c) = t :: rest.filter (· ≠ ofUnit c) := by
        simp [dropped]
      rw [kept]
      exact (Alike.refl [f t]).append ih

/-- Members that become equal are merged. -/
theorem alike_map_eraseDups (f : Ty → Ty) (ts : List Ty) : Alike c (ts.map f) (ts.eraseDups.map f) := by
  induction ts using List.reverseRecOn with
  | nil => exact Alike.refl []
  | append_singleton ts t ih =>
    rw [eraseDups_concat, List.map_append, List.map_singleton]
    by_cases present : t ∈ ts
    · rw [if_pos present]
      exact (alike_of_mem (List.mem_map_of_mem present)).trans ih
    · rw [if_neg present, List.map_append, List.map_singleton]
      exact ih.append (Alike.refl [f t])

/-! ### Replacing in connected types -/

/-- A type is replaced by what its leaves are replaced by. -/
theorem alike_replace_leaves (r : Replacement) (t : Ty) :
    Alike c [t.replace r] ((leaves c t).map (replace r)) := by
  induction t using Ty.induction with
  | step t ih =>
    by_cases compound : t.isCompound c = true
    · obtain ⟨members, rfl⟩ := eq_compound_of_isCompound compound
      have built : replace r ⟨.compound c members⟩ = combine c (members.map (replace r)) :=
        replace_node r _
      rw [built, leaves_compound, List.map_flatMap]
      exact (alike_combine c _).trans (alike_flatMap ih)
    · rw [leaves_of_not_isCompound (by simpa using compound)]
      exact Alike.refl _

theorem replace_collapse {r : Replacement} (normal : r.IsNormal) (members : List Ty) :
    (collapse c members).replace r = combine c (members.map (replace r)) := by
  match members with
  | [] => rfl
  | [t] => exact ((isNormal_replace normal t).tidy.combine_singleton c).symm
  | first :: second :: rest => exact replace_node r _

/-- **Replacing in connected types is connecting replaced types**, unless a member absorbs the others:
then they are lost, while a replaced one might absorb in its place. -/
theorem replace_combine {r : Replacement} (normal : r.IsNormal) {ts : List Ty}
    (quiet : NothingAbsorbs c ts) : (combine c ts).replace r = combine c (ts.map (replace r)) := by
  have unit : replace r (ofUnit c) = ofUnit c := rfl
  have apart : Alike c (ts.map (replace r)) ((ts.flatMap (leaves c)).map (replace r)) := by
    rw [List.map_flatMap]
    exact alike_flatMap fun t _ => alike_replace_leaves r t
  have once : Alike c ((ts.flatMap (leaves c)).map (replace r))
      ((ts.flatMap (essence c)).eraseDups.map (replace r)) := by
    refine (alike_map_filter unit _).trans ?_
    rw [filter_leaves]
    exact alike_map_eraseDups (replace r) _
  rw [combine_of_nothingAbsorbs quiet, replace_collapse normal, (apart.trans once).combine_eq]

/-! ### Solid types -/

/-- A type that is none of the words that absorb other members or add nothing to them. -/
def IsSolid (t : Ty) : Prop := t ≠ .any ∧ t ≠ .top ∧ t ≠ .bottom

theorem IsMember.solid {t : Ty} (isMember : t.IsMember c) : t.IsSolid := isMember.2

theorem IsSolid.not_absorbs {t : Ty} (solid : t.IsSolid) (c : Connective) : c.absorbs t = false := by
  cases c <;> simp [Connective.absorbs, Connective.zero, solid.1, solid.2.1, solid.2.2]

theorem IsSolid.ne_ofUnit {t : Ty} (solid : t.IsSolid) (c : Connective) : t ≠ ofUnit c := by
  cases c
  · exact solid.2.2
  · exact solid.2.1

/-- The leaves of a type in normal form are its members, or the type itself. -/
theorem leaves_of_normal {t : Ty} (normal : t.IsNormal) :
    leaves c t = [t] ∨ ∃ members, AreMembers c members ∧ t = ⟨.compound c members⟩ ∧
      leaves c t = members := by
  by_cases compound : t.isCompound c = true
  · obtain ⟨members, rfl⟩ := eq_compound_of_isCompound compound
    have connected : AreMembers c members := normal.tidy
    refine Or.inr ⟨members, connected, rfl, ?_⟩
    rw [leaves_compound, List.flatMap_congr fun t member =>
      leaves_of_not_isCompound (connected.plain t member).1]
    simp
  · exact Or.inl (leaves_of_not_isCompound (by simpa using compound))

theorem isSolid_of_mem_leaves {t leaf : Ty} (normal : t.IsNormal) (solid : t.IsSolid)
    (isLeaf : leaf ∈ leaves c t) : leaf.IsSolid := by
  obtain single | ⟨members, connected, _, all⟩ := leaves_of_normal (c := c) normal
  · rw [single, List.mem_singleton] at isLeaf
    exact isLeaf ▸ solid
  · rw [all] at isLeaf
    exact (connected.plain leaf isLeaf).solid

theorem nothingAbsorbs_of_solid {ts : List Ty} (normal : ∀ t ∈ ts, t.IsNormal)
    (solid : ∀ t ∈ ts, t.IsSolid) : NothingAbsorbs c ts := by
  intro leaf member
  obtain ⟨t, isMember, isLeaf⟩ := List.mem_flatMap.1 member
  exact (isSolid_of_mem_leaves (normal t isMember) (solid t isMember) isLeaf).not_absorbs c

theorem exists_mem_essence {t : Ty} (normal : t.IsNormal) (solid : t.IsSolid) :
    ∃ leaf, leaf ∈ essence c t := by
  have counts : ∀ leaf ∈ leaves c t, leaf ∈ essence c t := fun leaf isLeaf =>
    List.mem_filter.2 ⟨isLeaf, by
      simpa using (isSolid_of_mem_leaves normal solid isLeaf).ne_ofUnit c⟩
  obtain single | ⟨members, connected, _, all⟩ := leaves_of_normal (c := c) normal
  · exact ⟨t, counts t (by simp [single])⟩
  · match members, connected.several with
    | first :: _, _ => exact ⟨first, counts first (by simp [all])⟩

/-- Connected solid types are solid. -/
theorem isSolid_combine {ts : List Ty} (some : ts ≠ []) (normal : ∀ t ∈ ts, t.IsNormal)
    (solid : ∀ t ∈ ts, t.IsSolid) : (combine c ts).IsSolid := by
  rw [combine_of_nothingAbsorbs (nothingAbsorbs_of_solid normal solid)]
  have each : ∀ leaf ∈ (ts.flatMap (essence c)).eraseDups, leaf.IsSolid := by
    intro leaf member
    obtain ⟨t, isMember, counts⟩ := List.mem_flatMap.1 (List.mem_eraseDups.1 member)
    exact isSolid_of_mem_leaves (normal t isMember) (solid t isMember) (essence_spec counts).1
  have notEmpty : (ts.flatMap (essence c)).eraseDups ≠ [] := by
    obtain ⟨t, isMember⟩ := List.exists_mem_of_ne_nil ts some
    obtain ⟨leaf, counts⟩ := exists_mem_essence (c := c) (normal t isMember) (solid t isMember)
    exact List.ne_nil_of_mem (List.mem_eraseDups.2 (List.mem_flatMap.2 ⟨t, isMember, counts⟩))
  match (ts.flatMap (essence c)).eraseDups, each, notEmpty with
  | [], _, notEmpty => exact absurd rfl notEmpty
  | [leaf], each, _ => exact each leaf List.mem_cons_self
  | _ :: _ :: _, _, _ => exact ⟨nofun, nofun, nofun⟩

end Ty

/-! ### One replacement after another -/

namespace Replacement

/-- What a replacement puts in place of names neither absorbs other members nor adds nothing. -/
structure IsSolid (r : Replacement) : Prop where
  var : ∀ name, (r.var name).IsSolid
  placeholder : ∀ word, (r.placeholder word).IsSolid

/-- Replaces by the first replacement, then by the second one. -/
def andThen (first second : Replacement) : Replacement where
  var name := (first.var name).replace second
  placeholder word := (first.placeholder word).replace second
  singleton name := second.singleton (first.singleton name)
  head head name := second.head head (first.head head name)

end Replacement

namespace Ty

/-- A solid type stays solid where solid types are put in place of names. -/
theorem isSolid_replace {r : Replacement} (normalImages : r.IsNormal) (solidImages : r.IsSolid)
    {t : Ty} (normal : t.IsNormal) (solid : t.IsSolid) : (t.replace r).IsSolid := by
  induction t using Ty.induction with
  | step t ih =>
    obtain ⟨s⟩ := t
    rw [replace_node]
    cases s with
    | base word => exact solid
    | var name => exact solidImages.var name
    | placeholder word => exact solidImages.placeholder word
    | compound c members =>
      have connected : AreMembers c members := normal.tidy
      refine isSolid_combine ?_ ?_ ?_
      · intro empty
        have several := connected.several
        rw [List.map_eq_nil_iff.1 empty] at several
        cases several
      · intro u replaced
        obtain ⟨t, _, rfl⟩ := List.mem_map.1 replaced
        exact isNormal_replace normalImages t
      · intro u replaced
        obtain ⟨t, isMember, rfl⟩ := List.mem_map.1 replaced
        exact ih t isMember (normal.of_mem_children isMember) (connected.plain t isMember).solid
    | _ => exact ⟨nofun, nofun, nofun⟩

/-- Replacing in a type in normal form keeps its leaves that absorb, and makes no new ones where solid
types are put in place of names. -/
theorem find?_leaves_replace {r : Replacement} (normalImages : r.IsNormal) (solidImages : r.IsSolid)
    {t : Ty} (normal : t.IsNormal) :
    (leaves c (t.replace r)).find? c.absorbs = (leaves c t).find? c.absorbs := by
  by_cases solid : t.IsSolid
  · have silent : ∀ {u : Ty}, u.IsNormal → u.IsSolid → (leaves c u).find? c.absorbs = none :=
      fun normal solid => List.find?_eq_none.2 fun leaf isLeaf => by
        simpa using (isSolid_of_mem_leaves normal solid isLeaf).not_absorbs c
    rw [silent normal solid, silent (isNormal_replace normalImages t)
      (isSolid_replace normalImages solidImages normal solid)]
  · -- The words that are not solid are no names, so they stay.
    have word : t = .any ∨ t = .top ∨ t = .bottom := by
      by_contra other
      exact solid ⟨fun same => other (Or.inl same), fun same => other (Or.inr (Or.inl same)),
        fun same => other (Or.inr (Or.inr same))⟩
    rcases word with rfl | rfl | rfl <;> rfl

theorem find?_flatMap_replace {r : Replacement} (normalImages : r.IsNormal) (solidImages : r.IsSolid)
    {ts : List Ty} (normal : ∀ t ∈ ts, t.IsNormal) :
    ((ts.map (replace r)).flatMap (leaves c)).find? c.absorbs =
      (ts.flatMap (leaves c)).find? c.absorbs := by
  induction ts with
  | nil => rfl
  | cons t rest ih =>
    rw [List.map_cons, List.flatMap_cons, List.flatMap_cons, List.find?_append, List.find?_append,
      find?_leaves_replace normalImages solidImages (normal t List.mem_cons_self),
      ih fun u isMember => normal u (List.mem_cons_of_mem _ isMember)]

/-- **Replacing in connected types is connecting replaced types**, if only solid types are put in place
of names: a member that absorbs the others is a word, and that stays. -/
theorem replace_combine_of_solid {r : Replacement} (normalImages : r.IsNormal)
    (solidImages : r.IsSolid) {ts : List Ty} (normal : ∀ t ∈ ts, t.IsNormal) :
    (combine c ts).replace r = combine c (ts.map (replace r)) := by
  cases found : (ts.flatMap (leaves c)).find? c.absorbs with
  | none => exact replace_combine normalImages (nothingAbsorbs_iff.2 found)
  | some absorbing =>
    have kept : absorbing.replace r = absorbing := by
      rcases absorbs_iff.1 (List.find?_some found) with rfl | rfl <;> rfl
    rw [combine_eq, combine_eq, find?_flatMap_replace normalImages solidImages normal, found]
    exact kept

/-- One replacement after another is a single one, if the second commutes with connecting what the
first makes of members. -/
theorem replace_replace_of_commutes {r r' : Replacement} {t : Ty} (isNormal : t.IsNormal)
    (commutes : ∀ c members, AreMembers c members → (∀ t ∈ members, t.IsNormal) →
      (combine c (members.map (replace r))).replace r' =
        combine c ((members.map (replace r)).map (replace r'))) :
    (t.replace r).replace r' = t.replace (r.andThen r') := by
  induction t using Ty.induction with
  | step t ih =>
    obtain ⟨s⟩ := t
    have each : ∀ u ∈ s.toList, (replace r' ∘ replace r) u = u.replace (r.andThen r') :=
      fun u isPart => ih u isPart (isNormal.of_mem_children isPart)
    have twice : (s.map (replace r)).map (replace r') = s.map (replace (r.andThen r')) := by
      rw [Shape.map_map]
      exact Shape.map_congr each
    rw [replace_node, replace_node]
    cases s with
    | compound c members =>
      have connected : AreMembers c members := isNormal.tidy
      have members' : (members.map (replace r)).map (replace r') =
          members.map (replace (r.andThen r')) := (Shape.compound.inj twice).2
      show (combine c (members.map (replace r))).replace r' = _
      rw [commutes c members connected fun t isMember => isNormal.of_mem_children isMember, members']
      rfl
    | applied head name args =>
      have args' : (args.map (replace r)).map (replace r') = args.map (replace (r.andThen r')) :=
        (Shape.applied.inj twice).2.2
      show replace r' ⟨.applied head (r.head head name) (args.map (replace r))⟩ = _
      rw [replace_node]
      simp only [Shape.map, args']
      rfl
    | var name => rfl
    | placeholder word => rfl
    | singleton name => rfl
    | _ => exact (replace_node r' _).trans (congrArg r'.build twice)

/-- **One replacement after another**, on a type in normal form: a single replacement, if the first
puts only solid types in place of names. -/
theorem replace_replace {r r' : Replacement} (normal : r.IsNormal) (solid : r.IsSolid)
    (normal' : r'.IsNormal) {t : Ty} (isNormal : t.IsNormal) :
    (t.replace r).replace r' = t.replace (r.andThen r') := by
  refine replace_replace_of_commutes isNormal fun c members connected normalMembers => ?_
  refine replace_combine normal' (nothingAbsorbs_of_solid (fun u replaced => ?_) fun u replaced => ?_)
  · obtain ⟨t, _, rfl⟩ := List.mem_map.1 replaced
    exact isNormal_replace normal t
  · obtain ⟨t, isMember, rfl⟩ := List.mem_map.1 replaced
    exact isSolid_replace normal solid (normalMembers t isMember) (connected.plain t isMember).solid

/-- **One replacement after another**, on a type in normal form: a single replacement, if the second
puts only solid types in place of names. -/
theorem replace_replace_of_solid {r r' : Replacement} (normal : r.IsNormal) (normal' : r'.IsNormal)
    (solid' : r'.IsSolid) {t : Ty} (isNormal : t.IsNormal) :
    (t.replace r).replace r' = t.replace (r.andThen r') := by
  refine replace_replace_of_commutes isNormal fun c members _ _ => ?_
  refine replace_combine_of_solid normal' solid' fun u replaced => ?_
  obtain ⟨t, _, rfl⟩ := List.mem_map.1 replaced
  exact isNormal_replace normal t

/-- Replacements that agree on what occurs in a type replace it by the same. -/
theorem replace_congr {r r' : Replacement} {t : Ty}
    (vars : ∀ name, var name ∈ t.subterms → r.var name = r'.var name)
    (words : ∀ word, ⟨.placeholder word⟩ ∈ t.subterms → r.placeholder word = r'.placeholder word)
    (singleton : r.singleton = r'.singleton) (head : r.head = r'.head) :
    t.replace r = t.replace r' := by
  induction t using Ty.induction with
  | step t ih =>
    obtain ⟨s⟩ := t
    have each : ∀ u ∈ s.toList, u.replace r = u.replace r' := fun u isPart =>
      ih u isPart
        (fun name occurs => vars name (mem_subterms_iff.2 (Or.inr ⟨u, isPart, occurs⟩)))
        (fun word occurs => words word (mem_subterms_iff.2 (Or.inr ⟨u, isPart, occurs⟩)))
    rw [replace_node, replace_node, Shape.map_congr each]
    cases s with
    | var name => exact vars name (self_mem_subterms _)
    | placeholder word => exact words word (self_mem_subterms _)
    | singleton name => exact congrArg (fun f => singletonOf (f name)) singleton
    | applied kind name args =>
      exact congrArg (fun f => (⟨.applied kind (f kind name) (args.map (replace r'))⟩ : Ty)) head
    | _ => rfl

end Ty

end SignatureAlgebra
