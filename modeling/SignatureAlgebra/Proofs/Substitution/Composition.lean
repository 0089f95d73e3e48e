/-
**One substitution after another.**

Applying a substitution builds unions and intersections again, so something may be lost on the way: a
variable bound to `any` takes a whole union with it. Two substitutions still come to a single one on
types in normal form, unless each of them puts a word in place of a name that absorbs other members or
adds nothing to them.

* `Substitution.IsSolid` — no variable and no placeholder is replaced by `any`, `top` or `bottom`.
* `Substitution.andThen` — the substitution that two come to: what the first binds, with the second
  applied to it, and else what the second binds.
* `Substitution.replacement_andThen` — what it puts in place of names.
* `Substitution.apply_andThen` — the statement.
-/
import SignatureAlgebra.Proofs.Substitution.Normal
import SignatureAlgebra.Proofs.Ty.Composition

namespace SignatureAlgebra

/-- No type that a substitution binds or fills in is a word that absorbs other members or adds nothing
to them. -/
structure Substitution.IsSolid (s : Substitution) : Prop where
  bound : ∀ name t, s.bindings.find? name = some t → t.IsSolid
  filled : ∀ word t, s.slot word = some t → t.IsSolid

namespace Substitution

variable {s first second : Substitution} {t : Ty}

theorem IsSolid.replacement (solid : s.IsSolid) : s.replacement.IsSolid where
  var name := by
    show ((s.bindings.find? name).getD (.var name)).IsSolid
    cases found : s.bindings.find? name with
    | none => exact ⟨nofun, nofun, nofun⟩
    | some t => exact solid.bound name t found
  placeholder word := by
    show ((s.slot word).getD ⟨.placeholder word⟩).IsSolid
    cases found : s.slot word with
    | none => exact ⟨nofun, nofun, nofun⟩
    | some t => exact solid.filled word t found

/-! ### Two substitutions as one -/

/-- **Applies the first substitution, then the second one**: what the first binds and fills in, with the
second applied to it, and where it has nothing what the second has. -/
def andThen (first second : Substitution) : Substitution :=
  second.merge ⟨first.bindings.map second.apply, fun word => (first.slot word).map second.apply⟩ true

theorem find?_andThen (first second : Substitution) (name : Name) :
    (first.andThen second).bindings.find? name =
      ((first.bindings.find? name).map second.apply).or (second.bindings.find? name) := by
  rw [andThen, find?_merge, NameMap.find?_map]

theorem slot_andThen (first second : Substitution) (word : Placeholder) :
    (first.andThen second).slot word =
      ((first.slot word).map second.apply).or (second.slot word) := by
  rw [andThen, slot_merge]

/-- What two substitutions put in place of a name, one after the other. -/
theorem replacement_andThen (normal : first.IsNormal) (second : Substitution) :
    (first.andThen second).replacement = first.replacement.andThen second.replacement := by
  have vars : (first.andThen second).replacement.var =
      fun name => (first.replacement.var name).replace second.replacement := by
    funext name
    show ((first.andThen second).bindings.find? name).getD (.var name) =
      ((first.bindings.find? name).getD (.var name)).replace second.replacement
    rw [find?_andThen]
    cases found : first.bindings.find? name with
    | none => rfl
    | some t => exact second.apply_of_normal (normal.bound name t found)
  have words : (first.andThen second).replacement.placeholder =
      fun word => (first.replacement.placeholder word).replace second.replacement := by
    funext word
    show ((first.andThen second).slot word).getD ⟨.placeholder word⟩ =
      ((first.slot word).getD ⟨.placeholder word⟩).replace second.replacement
    rw [slot_andThen]
    cases found : first.slot word with
    | none => rfl
    | some t => exact second.apply_of_normal (normal.filled word t found)
  show (⟨(first.andThen second).replacement.var, (first.andThen second).replacement.placeholder, id,
    fun _ => id⟩ : Replacement) = _
  rw [vars, words]
  rfl

/-- **One substitution after another is a single one**, on types in normal form, if one of the two puts
nothing but solid types in place of variables and placeholders. It binds what the first binds to what the
second makes of that, and everything else as the second does; so with the placeholders. -/
theorem apply_andThen (normal : first.IsNormal) (normal' : second.IsNormal)
    (solid : first.IsSolid ∨ second.IsSolid) :
    (∀ name, (first.andThen second).bindings.find? name =
      ((first.bindings.find? name).map second.apply).or (second.bindings.find? name)) ∧
    (∀ word, (first.andThen second).slot word =
      ((first.slot word).map second.apply).or (second.slot word)) ∧
    ∀ t : Ty, t.IsNormal → second.apply (first.apply t) = (first.andThen second).apply t := by
  refine ⟨find?_andThen first second, slot_andThen first second, fun t isNormal => ?_⟩
  have twice : (t.replace first.replacement).replace second.replacement =
      t.replace (first.replacement.andThen second.replacement) := by
    rcases solid with solid | solid
    · exact Ty.replace_replace normal.replacement solid.replacement normal'.replacement isNormal
    · exact Ty.replace_replace_of_solid normal.replacement normal'.replacement solid.replacement
        isNormal
  calc second.apply (first.apply t)
      = (first.apply t).replace second.replacement := second.apply_of_normal (normal.apply isNormal)
    _ = (t.replace first.replacement).replace second.replacement := by
      rw [first.apply_of_normal isNormal]
    _ = t.replace (first.andThen second).replacement := by rw [twice, replacement_andThen normal]
    _ = (first.andThen second).apply t := ((first.andThen second).apply_of_normal isNormal).symm

/-- A variable bound to `any` takes the union of which it is a member with it, before and after the
variable beside it is replaced. -/
theorem apply_andThen_union :
    let first := Substitution.empty.bind ⟨0⟩ .any
    let second := (Substitution.empty.bind ⟨1⟩ .nil).fill .selfType (.var ⟨0⟩)
    let t := Ty.tuple [⟨.compound .union [.var ⟨0⟩, .var ⟨1⟩]⟩, ⟨.compound .union [.var ⟨1⟩, .selfType]⟩]
    first.IsNormal ∧ second.IsNormal ∧ second.IsSolid ∧ t.IsNormal ∧
      second.apply (first.apply t) = (first.andThen second).apply t ∧
      second.apply (first.apply t) = .tuple [.any, ⟨.compound .union [.nil, .var ⟨0⟩]⟩] := by
  intro first second t
  have normal : first.IsNormal := isNormal_empty.bind ⟨0⟩ (Ty.isNormal_of_children trivial rfl)
  have normal' : second.IsNormal :=
    (isNormal_empty.bind ⟨1⟩ (Ty.isNormal_of_children (t := .nil) trivial rfl)).fill .selfType
      (Ty.isNormal_of_children (t := .var ⟨0⟩) trivial rfl)
  have solid : second.IsSolid := by
    refine ⟨fun name u found => ?_, fun word u found => ?_⟩
    · change (Substitution.empty.bindings.insert ⟨1⟩ .nil).find? name = some u at found
      rw [NameMap.find?_insert] at found
      split at found
      · exact Option.some.inj found ▸ ⟨nofun, nofun, nofun⟩
      · cases found
    · change (if word = .selfType then some (Ty.var ⟨0⟩) else none) = some u at found
      split at found
      · exact Option.some.inj found ▸ ⟨nofun, nofun, nofun⟩
      · cases found
  have isNormal : t.IsNormal := by decide
  obtain ⟨_, _, once⟩ := apply_andThen normal normal' (Or.inr solid)
  exact ⟨normal, normal', solid, isNormal, once t isNormal, by decide⟩

/-- Where each of two substitutions puts another such word in place of a variable, the first to come wins:
one after the other gives `top`, both at once `any`. -/
example :
    let first := Substitution.empty.bind ⟨0⟩ .top
    let second := Substitution.empty.bind ⟨1⟩ .any
    let t : Ty := ⟨.compound .union [.var ⟨1⟩, .var ⟨0⟩]⟩
    second.apply (first.apply t) = .top ∧ (first.andThen second).apply t = .any := by decide

end Substitution

end SignatureAlgebra
