/-
**Members of a definition, each name once.**

The members of a definition are a list, and nothing in the data keeps two of them from having the same
name. Both operations do: a member is put in the place of the first one of its name, and only members whose
name is not taken are added. So the first member of a name, which a look-up finds, is also the last, which an
interface is made of.

* `Definition.Unique` — no two members have the same name.
* `Member.Puts`, `Member.puts_put` — a list of members with one more.
* `Definition.puts_define`, `Definition.members_inherit` — the members after both operations.
* `Definition.member?_define`, `Definition.member?_inherit` — the same, seen through one name.
* `Definition.visible?_eq` — the visible member of a name is the one that a look-up finds.
-/
import Mathlib.Data.List.Nodup
import SignatureAlgebra.Proofs.Analysis.Overloads

namespace SignatureAlgebra

/-! ### Members by name -/

namespace Member

variable {members : List Member} {name : Name} {member : Member}

theorem mem_of_find? (found : members.find? (·.name = name) = some member) :
    member ∈ members ∧ member.name = name :=
  ⟨List.mem_of_find?_eq_some found, by simpa using List.find?_some found⟩

/-- Where every name is there once, a member is found under its name. -/
theorem find?_eq_some_iff (distinct : (members.map Member.name).Nodup) :
    members.find? (·.name = name) = some member ↔ member ∈ members ∧ member.name = name := by
  refine ⟨mem_of_find?, ?_⟩
  rintro ⟨isMember, named⟩
  cases found : members.find? (·.name = name) with
  | none => exact absurd named (by simpa using List.find?_eq_none.1 found member isMember)
  | some other =>
    obtain ⟨isMember', named'⟩ := mem_of_find? found
    exact congrArg some (List.inj_on_of_nodup_map distinct isMember' isMember (named'.trans named.symm))

/-- Where every name is there once, the last member of a name is the first. -/
theorem find?_reverse (distinct : (members.map Member.name).Nodup) (name : Name) :
    members.reverse.find? (·.name = name) = members.find? (·.name = name) := by
  have distinct' : (members.reverse.map Member.name).Nodup := by
    rw [List.map_reverse]
    exact List.nodup_reverse.2 distinct
  refine Option.ext fun member => ?_
  rw [find?_eq_some_iff distinct', find?_eq_some_iff distinct, List.mem_reverse]

/-- **A list of members with one more**: in the place of the member of its name, or behind all others if
there is none. -/
inductive Puts (member : Member) : List Member → List Member → Prop where
  | inPlace (before : List Member) (old : Member) (rest : List Member) (named : old.name = member.name) :
    Puts member (before ++ old :: rest) (before ++ member :: rest)
  | behind (members : List Member) (unnamed : ∀ old ∈ members, old.name ≠ member.name) :
    Puts member members (members ++ [member])

/-- A member of another name in front stays there. -/
theorem Puts.cons {first : Member} {members' : List Member} (puts : member.Puts members members')
    (different : first.name ≠ member.name) : member.Puts (first :: members) (first :: members') := by
  cases puts with
  | inPlace before old rest named => exact .inPlace (first :: before) old rest named
  | behind members unnamed => exact .behind (first :: members) (List.forall_mem_cons.2 ⟨different, unnamed⟩)

/-- **A member that is put** is one more. -/
theorem puts_put (member : Member) (members : List Member) : member.Puts members (member.put members) := by
  induction members with
  | nil => exact .behind [] fun _ isMember => nomatch isMember
  | cons first rest ih =>
    rw [put]
    by_cases named : first.name = member.name
    · rw [if_pos named]
      exact .inPlace [] first rest named
    · rw [if_neg named]
      exact ih.cons named

/-- A member that is put is found under its name, and no other look-up changes. -/
theorem find?_put (member : Member) (members : List Member) (name : Name) :
    (member.put members).find? (·.name = name) =
      if name = member.name then some member else members.find? (·.name = name) := by
  induction members with
  | nil => simp [put, List.find?_singleton, eq_comm]
  | cons first rest ih =>
    rw [put]
    by_cases named : first.name = member.name
    · rw [if_pos named, List.find?_cons, List.find?_cons, named]
      by_cases same : name = member.name
      · simp [same]
      · simp [same, Ne.symm same]
    · rw [if_neg named, List.find?_cons, List.find?_cons, ih]
      by_cases here : first.name = name
      · have different : name ≠ member.name := here ▸ named
        simp [here, different]
      · simp [here]

/-- A list with one more member has no name twice either. -/
theorem Puts.distinct {members' : List Member} (puts : member.Puts members members')
    (distinct : (members.map Member.name).Nodup) : (members'.map Member.name).Nodup := by
  cases puts with
  | inPlace before old rest named =>
    rw [List.map_append, List.map_cons, named] at distinct
    rwa [List.map_append, List.map_cons]
  | behind members unnamed =>
    rw [List.map_append, List.nodup_append]
    refine ⟨distinct, List.nodup_singleton _, ?_⟩
    rintro _ isName _ isNew rfl
    obtain ⟨old, isMember, named⟩ := List.mem_map.1 isName
    exact unnamed old isMember (named.trans (List.mem_singleton.1 isNew))

end Member

namespace Definition

variable {d : Definition} {member : Member} {members : List Member} {name : Name}

/-- No two members have the same name. -/
def Unique (d : Definition) : Prop := (d.members.map Member.name).Nodup

theorem member?_eq_none_iff : d.member? name = none ↔ ∀ old ∈ d.members, old.name ≠ name := by
  simp [member?]

/-- **The visible member of a name is the one that a look-up finds**, if it is visible. -/
theorem visible?_eq (unique : d.Unique) (includePrivate : Bool) (name : Name) :
    d.visible? includePrivate name =
      (d.member? name).filter fun member => includePrivate || !member.isPrivate := by
  have distinct : ((d.members.filter fun m => includePrivate || !m.isPrivate).map Member.name).Nodup :=
    List.Nodup.sublist (List.filter_sublist.map Member.name) unique
  rw [visible?, Member.find?_reverse distinct]
  refine Option.ext fun member => ?_
  rw [Member.find?_eq_some_iff distinct, List.mem_filter, Option.filter_eq_some_iff, member?,
    Member.find?_eq_some_iff unique, and_right_comm]

/-! ### Defining a member -/

/-- **Defining a member puts it.** -/
theorem puts_define (d : Definition) (member : Member) :
    member.Puts d.members (d.define member).members := Member.puts_put member d.members

theorem Unique.define (unique : d.Unique) (member : Member) : (d.define member).Unique :=
  (puts_define d member).distinct unique

/-- A defined member is found under its name, and no other look-up changes. -/
theorem member?_define (d : Definition) (member : Member) (name : Name) :
    (d.define member).member? name = if name = member.name then some member else d.member? name :=
  Member.find?_put member d.members name

/-! ### Inheriting members -/

theorem members_offer (d : Definition) (member : Member) :
    (d.offer member).members =
      d.members ++ if (d.member? member.name).isSome then [] else [member] := by
  unfold offer
  split
  · rw [List.append_nil]
  · rfl

theorem Unique.offer (unique : d.Unique) (member : Member) : (d.offer member).Unique := by
  unfold Definition.offer
  cases found : d.member? member.name with
  | none => exact (Member.Puts.behind d.members (member?_eq_none_iff.1 found)).distinct unique
  | some old => exact unique

theorem member?_offer (d : Definition) (member : Member) (name : Name) :
    (d.offer member).member? name =
      (d.member? name).or (if member.name = name then some member else none) := by
  rw [member?, members_offer, List.find?_append]
  cases found : d.member? member.name with
  | none => simp [member?]
  | some old =>
    by_cases same : member.name = name
    · rw [← same, ← member?, found]
      rfl
    · simp [member?, same]

theorem Unique.inherit (unique : d.Unique) (members : List Member) : (d.inherit members).Unique :=
  List.foldlRecOn members Definition.offer unique fun _ unique member _ => unique.offer member

/-- **Inheriting members adds those whose name is not taken**, in order. -/
theorem members_inherit (d : Definition) (distinct : (members.map Member.name).Nodup) :
    (d.inherit members).members =
      d.members ++ members.filter fun member => (d.member? member.name).isNone := by
  induction members generalizing d with
  | nil => exact (List.append_nil _).symm
  | cons member rest ih =>
    obtain ⟨isNew, distinct'⟩ := List.nodup_cons.1 distinct
    show ((d.offer member).inherit rest).members = _
    have same : rest.filter (fun other => ((d.offer member).member? other.name).isNone) =
        rest.filter fun other => (d.member? other.name).isNone := by
      refine List.filter_congr fun other isOther => ?_
      have different : member.name ≠ other.name := fun same =>
        isNew (same ▸ List.mem_map_of_mem isOther)
      rw [member?_offer, if_neg different, Option.or_none]
    rw [ih _ distinct', same, members_offer, List.append_assoc, List.filter_cons]
    cases d.member? member.name <;> rfl

/-- An inherited member is found where there is no other of its name. -/
theorem member?_inherit (d : Definition) (members : List Member) (name : Name) :
    (d.inherit members).member? name = (d.member? name).or (members.find? (·.name = name)) := by
  induction members generalizing d with
  | nil => exact (Option.or_none).symm
  | cons member rest ih =>
    show ((d.offer member).inherit rest).member? name = _
    rw [ih, member?_offer, Option.or_assoc, List.find?_cons]
    by_cases same : member.name = name <;> simp [same]

end Definition

end SignatureAlgebra
