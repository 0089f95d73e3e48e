/-
**Unions and intersections, kept flat and free of repetitions.**

Both connectives have a word that adds nothing (`Connective.unit`), and two that leave nothing else:
`any`, and the unit of the other connective (`Connective.zero`). A compound type is built by adding
its members one after the other.

* `Ty.addMember` — a member of the same connective is added member by member; a repetition or the unit
  changes nothing; an absorbing word ends the matter.
* `Ty.combine` — no member left gives the unit, one gives itself, more give a compound type; `Ty.union`
  and `Ty.intersection` are its two cases.
* `Ty.leaves` — the members of a type seen through nested types of one connective.
-/
import SignatureAlgebra.Ty.Equality

namespace SignatureAlgebra

namespace Connective

/-- The word that adds nothing to other members. -/
def unit : Connective → Base
  | union => .bottom
  | intersection => .top

/-- The word, beside `any`, that leaves nothing of other members. -/
def zero : Connective → Base
  | union => .top
  | intersection => .bottom

/-- Whether a member leaves nothing of the others. -/
def absorbs (c : Connective) (t : Ty) : Bool := t = .any || t = ⟨.base c.zero⟩

end Connective

namespace Ty

/-- Appends a member unless it is there. -/
def addNew (members : List Ty) (t : Ty) : List Ty := if t ∈ members then members else members ++ [t]

mutual
/-- Adds a type to the members so far, or fails with the absorbing word that was met. -/
def addMember (c : Connective) : Ty → List Ty → Except Ty (List Ty)
  | ⟨.compound c' inner⟩, members =>
    if c' = c then addMembers c inner members else .ok (addNew members ⟨.compound c' inner⟩)
  | t, members =>
    if c.absorbs t then .error t
    else if t = ⟨.base c.unit⟩ then .ok members
    else .ok (addNew members t)
termination_by structural t => t

def addMembers (c : Connective) : List Ty → List Ty → Except Ty (List Ty)
  | [], members => .ok members
  | t :: rest, members =>
    match addMember c t members with
    | .error absorbing => .error absorbing
    | .ok more => addMembers c rest more
termination_by structural ts => ts
end

/-- The type of members that are flat and free of repetitions. -/
def collapse (c : Connective) : List Ty → Ty
  | [] => ⟨.base c.unit⟩
  | [t] => t
  | members => ⟨.compound c members⟩

def combine (c : Connective) (members : List Ty) : Ty :=
  match addMembers c members [] with
  | .error absorbing => absorbing
  | .ok flat => collapse c flat

def union (members : List Ty) : Ty := combine .union members

def intersection (members : List Ty) : Ty := combine .intersection members

def optional (t : Ty) : Ty := union [t, nil]

/-- The members of a type seen through nested types of one connective, repetitions kept; a type of
another kind is its own only leaf. -/
def leaves (c : Connective) (t : Ty) : List Ty :=
  t.recurse fun u results =>
    match results with
    | .compound c' inner => if c' = c then inner.flatten else [u]
    | _ => [u]

theorem leaves_compound (c : Connective) (members : List Ty) :
    leaves c ⟨.compound c members⟩ = members.flatMap (leaves c) := by
  simp only [leaves, recurse_node, Shape.map, if_pos]
  rfl

theorem leaves_of_ne (c : Connective) {t : Ty} (other : ∀ members, t ≠ ⟨.compound c members⟩) :
    leaves c t = [t] := by
  obtain ⟨s⟩ := t
  rw [leaves, recurse_node]
  cases s with
  | compound c' members =>
    have ne : c' ≠ c := fun equal => other members (equal ▸ rfl)
    simp [Shape.map, ne]
  | _ => rfl

end Ty

end SignatureAlgebra
