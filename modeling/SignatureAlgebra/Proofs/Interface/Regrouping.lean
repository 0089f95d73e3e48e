/-
**Joining in groups.**

The members of a union may be joined one after the other, or in groups and then group by group, and a
member may occur in several groups. The methods are the same and so are their forms. If no member has two
overloads of one form, even the overloads are the same: joining is then associative, joining equal lists
changes nothing, and a list that was joined before adds nothing when it is joined again. With two
overloads of one form all this fails, since every overload is joined with both.

* `Ty.combine_assoc`, `MethodType.join?_assoc`, `MethodType.join?_absorbs` — types and method types.
* `MethodType.blend?`, `MethodType.blend` — the join of two method types and of two lists of them, without
  what else overloads carry; `blend_assoc`, `blend_self`, `blend_regular` — its laws.
* `MethodType.blendAll_flatten`, `blendAll_eraseDups` — groups, and members that occur again.
* `JoinRule.typesOf_joinAll` — the method types of joined interfaces.
* `JoinRule.joinAll_groups` — the statement.
-/
import SignatureAlgebra.Proofs.Interface.Forms
import SignatureAlgebra.Proofs.Ty.Composition

namespace SignatureAlgebra

/-! ### Types -/

namespace Ty

/-- **Connecting three types**, the first two or the last two before the third. -/
theorem combine_assoc (c : Connective) (t u v : Ty) :
    combine c [combine c [t, u], v] = combine c [t, combine c [u, v]] := by
  have front : Alike c [combine c [t, u], v] [t, u, v] := (alike_combine c [t, u]).append (.refl [v])
  have back : Alike c [t, combine c [u, v]] [t, u, v] := (Alike.refl [t]).append (alike_combine c [u, v])
  exact front.combine_eq.trans back.combine_eq.symm

/-- A type that was connected adds nothing at the end. -/
theorem combine_absorbs_left (c : Connective) (t u : Ty) :
    combine c [combine c [t, u], t] = combine c [t, u] := by
  have apart : Alike c [combine c [t, u], t] [t, u, t] := (alike_combine c [t, u]).append (.refl [t])
  have once : Alike c ([t, u] ++ [t]) [t, u] := alike_of_mem List.mem_cons_self
  exact (apart.trans once).combine_eq

/-- A type that is connected further adds nothing in front. -/
theorem combine_left_idem (c : Connective) (t u : Ty) :
    combine c [t, combine c [t, u]] = combine c [t, u] := by
  have once : Alike c ([t] ++ [t]) [t] := alike_of_mem List.mem_cons_self
  rw [← combine_assoc]
  exact (((alike_combine c [t, t]).trans once).append (.refl [u])).combine_eq

end Ty

/-! ### Method types -/

namespace MethodType

variable {x y z j : MethodType}

/-- The join of method types whose parameters stand in the same rows. -/
theorem join?_rows {ι : Type} (typeParams : List Name) (block : Option Block) (rows : Params ι)
    (f g : ι → Ty) (t u : Ty) :
    join? ⟨typeParams, rows.map f, block, t⟩ ⟨typeParams, rows.map g, block, u⟩ =
      some ⟨typeParams, rows.map fun i => Ty.intersection [f i, g i], block, Ty.union [t, u]⟩ := by
  have pairs : (rows.map f).zipWith? (fun l r => Ty.intersection [l, r]) (rows.map g) =
      some (rows.map fun i => Ty.intersection [f i, g i]) :=
    Params.zipWith?_eq_some_iff.2 ⟨rows.map fun i => (f i, g i), by rw [Params.map_map]; rfl,
      by rw [Params.map_map]; rfl, by rw [Params.map_map]; rfl⟩
  rw [join?, if_pos ⟨rfl, rfl⟩, pairs]
  rfl

/-- The parameters of three method types of one form stand in the same rows. -/
theorem exists_rows (same : x.form = y.form) (same' : y.form = z.form) :
    ∃ rows : Params (Ty × Ty × Ty), x = { x with params := rows.map fun row => row.1 } ∧
      y = ⟨x.typeParams, rows.map fun row => row.2.1, x.block, y.result⟩ ∧
      z = ⟨x.typeParams, rows.map fun row => row.2.2, x.block, z.result⟩ := by
  obtain ⟨typeParams, block, shape⟩ := Form.mk.inj same
  obtain ⟨typeParams', block', shape'⟩ := Form.mk.inj same'
  obtain ⟨pairs, paired⟩ := Params.exists_zip?_iff.2 shape'
  obtain ⟨ofY, ofZ⟩ := Params.zip?_eq_some_iff.1 paired
  obtain ⟨rows, paired'⟩ := Params.exists_zip?_iff.2
    (show x.params.SameShape pairs from shape.trans (by rw [← ofY, Params.shape_map]))
  obtain ⟨ofX, ofPairs⟩ := Params.zip?_eq_some_iff.1 paired'
  refine ⟨rows, ?_, ?_, ?_⟩
  · rw [ofX]
  · rw [typeParams, block, ← Function.comp_def Prod.fst Prod.snd, ← Params.map_map, ofPairs, ofY]
  · rw [typeParams, block, typeParams', block', ← Function.comp_def Prod.snd Prod.snd, ← Params.map_map,
      ofPairs, ofZ]

theorem join?_assoc (same : x.form = y.form) (same' : y.form = z.form) :
    (x.join? y).bind (·.join? z) = (y.join? z).bind x.join? := by
  obtain ⟨rows, ofX, ofY, ofZ⟩ := exists_rows same same'
  rw [ofX, ofY, ofZ]
  simp only [join?_rows, Option.bind_some]
  simp only [Ty.intersection, Ty.union, Ty.combine_assoc]

/-- **What was joined adds nothing** to a join, on either side or as a whole. -/
theorem join?_absorbs (found : x.join? y = some j) :
    j.join? x = some j ∧ j.join? y = some j ∧ x.join? j = some j ∧ j.join? j = some j := by
  obtain ⟨rows, ofX, ofY, -⟩ := exists_rows (exists_join?_iff.1 ⟨j, found⟩) (Eq.refl y.form)
  rw [ofX, ofY] at found ⊢
  rw [join?_rows, Option.some.injEq] at found
  subst found
  refine ⟨?_, ?_, ?_, ?_⟩
  all_goals simp only [join?_rows]
  · simp only [Ty.intersection, Ty.union, Ty.combine_absorbs_left]
  · have right : ∀ (c : Connective) (t u : Ty), Ty.combine c [Ty.combine c [t, u], u] = Ty.combine c [t, u] :=
      Ty.covers_combine_right
    simp only [Ty.intersection, Ty.union, right]
  · simp only [Ty.intersection, Ty.union, Ty.combine_left_idem]
  · have whole : ∀ (c : Connective) (t u : Ty),
        Ty.combine c [Ty.combine c [t, u], Ty.combine c [t, u]] = Ty.combine c [t, u] := fun c t u =>
      Ty.covers_self (Ty.combine_combine c [t, u])
    simp only [Ty.intersection, Ty.union, whole]

/-- The join of two method types; equal ones are joined to themselves. -/
def blend? (x y : MethodType) : Option MethodType := if x = y then some x else x.join? y

theorem blend?_self (x : MethodType) : x.blend? x = some x := if_pos rfl

theorem blend?_of_ne (different : x ≠ y) : x.blend? y = x.join? y := if_neg different

theorem form_of_blend? (found : x.blend? y = some j) : j.form = x.form := by
  by_cases same : x = y
  · rw [blend?, if_pos same, Option.some.injEq] at found
    rw [found]
  · rw [blend?_of_ne same] at found
    exact (form_of_join? found).1

theorem exists_blend? (same : x.form = y.form) : ∃ j, x.blend? y = some j := by
  by_cases equal : x = y
  · exact ⟨x, if_pos equal⟩
  · rw [blend?_of_ne equal]
    exact exists_join?_iff.2 same

/-- A method type that is a join of others is joined as a whole, equal or not. -/
theorem blend?_eq_join? (built : x.join? x = some x ∨ y.join? y = some y) : x.blend? y = x.join? y := by
  by_cases same : x = y
  · subst same
    rw [blend?_self, built.elim id id]
  · exact blend?_of_ne same

theorem blend?_assoc (same : x.form = y.form) (same' : y.form = z.form) :
    (x.blend? y).bind (·.blend? z) = (y.blend? z).bind x.blend? := by
  by_cases first : x = y <;> by_cases second : y = z
  · subst first second
    rw [blend?_self, Option.bind_some, Option.bind_some]
  · subst first
    obtain ⟨k, found⟩ := exists_join?_iff.2 same'
    obtain ⟨_, _, again, built⟩ := join?_absorbs found
    rw [blend?_self, Option.bind_some, blend?_of_ne second, found, Option.bind_some,
      blend?_eq_join? (Or.inr built), again]
  · subst second
    obtain ⟨k, found⟩ := exists_join?_iff.2 same
    obtain ⟨_, again, _, built⟩ := join?_absorbs found
    rw [blend?_self, Option.bind_some, blend?_of_ne first, found, Option.bind_some,
      blend?_eq_join? (Or.inl built), again]
  · have assoc := join?_assoc same same'
    obtain ⟨k, found⟩ := exists_join?_iff.2 same
    obtain ⟨l, found'⟩ := exists_join?_iff.2 same'
    obtain ⟨_, _, _, built⟩ := join?_absorbs found
    obtain ⟨_, _, _, built'⟩ := join?_absorbs found'
    rw [found, found', Option.bind_some, Option.bind_some] at assoc
    rw [blend?_of_ne first, blend?_of_ne second, found, found', Option.bind_some, Option.bind_some,
      blend?_eq_join? (Or.inl built), blend?_eq_join? (Or.inr built'), assoc]

/-- What was joined before adds nothing. -/
theorem blend?_regular (found : x.blend? y = some j) : j.blend? x = some j := by
  by_cases same : x = y
  · subst same
    obtain rfl := Option.some.inj ((blend?_self x).symm.trans found)
    exact blend?_self x
  · rw [blend?_of_ne same] at found
    obtain ⟨again, _, _, built⟩ := join?_absorbs found
    rw [blend?_eq_join? (Or.inl built), again]

/-! ### Lists of method types -/

variable {xs ys zs : List MethodType} {form : Form}

/-- The first method type of a form. -/
def typeAt (xs : List MethodType) (form : Form) : Option MethodType := xs.find? (·.form = form)

theorem form_of_typeAt (found : typeAt xs form = some x) : x.form = form := by
  simpa using List.find?_some found

/-- If no two have one form, each is the first of its form. -/
theorem typeAt_of_mem (distinct : (xs.map MethodType.form).Nodup) (isMember : x ∈ xs) :
    typeAt xs x.form = some x := by
  induction xs with
  | nil => cases isMember
  | cons first rest ih =>
    obtain ⟨isNew, distinct'⟩ := List.nodup_cons.1 distinct
    rcases List.mem_cons.1 isMember with rfl | later
    · simp [typeAt]
    · have other : first.form ≠ x.form := fun same => isNew (same ▸ List.mem_map_of_mem later)
      simpa [typeAt, other] using ih distinct' later

/-- **The join of two lists** without two method types of one form: each on the left is joined with the one of
its form on the right. -/
def blend (xs ys : List MethodType) : List MethodType :=
  xs.filterMap fun x => (typeAt ys x.form).bind x.blend?

theorem blend_cons : blend (x :: xs) ys = ((typeAt ys x.form).bind x.blend?).toList ++ blend xs ys := by
  rw [blend, List.filterMap_cons]
  cases (typeAt ys x.form).bind x.blend? <;> rfl

theorem typeAt_blend : typeAt (blend xs ys) form =
    (typeAt xs form).bind fun x => (typeAt ys form).bind x.blend? := by
  induction xs with
  | nil => rfl
  | cons x xs ih =>
    rw [blend_cons]
    by_cases here : x.form = form
    · have first : typeAt (x :: xs) form = some x := by simp [typeAt, here]
      rw [first, here, Option.bind_some]
      cases other : typeAt ys form with
      | none =>
        rw [other] at ih
        simpa using ih
      | some y =>
        obtain ⟨j, found⟩ := exists_blend? (here.trans (form_of_typeAt other).symm)
        have ofJoin : j.form = form := (form_of_blend? found).trans here
        simp [typeAt, found, ofJoin]
    · have later : typeAt (x :: xs) form = typeAt xs form := by simp [typeAt, here]
      rw [later, ← ih]
      cases found : (typeAt ys x.form).bind x.blend? with
      | none => rfl
      | some j =>
        obtain ⟨y, _, joined⟩ := Option.bind_eq_some_iff.1 found
        have other : j.form ≠ form := fun same => here ((form_of_blend? joined).symm.trans same)
        simp [typeAt, other]

/-- **Joining lists is associative.** -/
theorem blend_assoc (xs ys zs : List MethodType) : blend (blend xs ys) zs = blend xs (blend ys zs) := by
  rw [blend, blend, blend, List.filterMap_filterMap]
  refine List.filterMap_congr fun x _ => ?_
  rw [typeAt_blend]
  cases second : typeAt ys x.form with
  | none => rfl
  | some y =>
    have same : x.form = y.form := (form_of_typeAt second).symm
    rw [Option.bind_some, Option.bind_some]
    have third : (x.blend? y).bind (fun j => (typeAt zs j.form).bind j.blend?) =
        (x.blend? y).bind fun j => (typeAt zs x.form).bind j.blend? := by
      cases found : x.blend? y with
      | none => rfl
      | some j => rw [Option.bind_some, Option.bind_some, form_of_blend? found]
    rw [third]
    cases last : typeAt zs x.form with
    | none => cases x.blend? y <;> rfl
    | some z =>
      simp only [Option.bind_some]
      exact blend?_assoc same (same.symm.trans (form_of_typeAt last).symm)

instance : Std.Associative blend := ⟨blend_assoc⟩

/-- The forms of joined lists are among those on the left, in order. -/
theorem forms_blend (xs ys : List MethodType) :
    ((blend xs ys).map MethodType.form).Sublist (xs.map MethodType.form) := by
  induction xs with
  | nil => exact List.Sublist.refl _
  | cons x xs ih =>
    rw [blend_cons]
    cases found : (typeAt ys x.form).bind x.blend? with
    | none => exact ih.cons _
    | some j =>
      obtain ⟨y, _, joined⟩ := Option.bind_eq_some_iff.1 found
      simpa [form_of_blend? joined] using ih

/-- Joining a list with itself changes nothing. -/
theorem blend_self (distinct : (xs.map MethodType.form).Nodup) : blend xs xs = xs := by
  have each : ∀ x ∈ xs, (typeAt xs x.form).bind x.blend? = some x := fun x isMember => by
    rw [typeAt_of_mem distinct isMember, Option.bind_some, blend?_self]
  rw [blend, List.filterMap_congr each, List.filterMap_some]

/-- **A list that was joined before adds nothing.** -/
theorem blend_regular (distinct : (xs.map MethodType.form).Nodup) : blend (blend xs ys) xs = blend xs ys := by
  have each : ∀ j ∈ blend xs ys, (typeAt xs j.form).bind j.blend? = some j := by
    intro j isJoined
    obtain ⟨x, isMember, found⟩ := List.mem_filterMap.1 isJoined
    obtain ⟨y, _, joined⟩ := Option.bind_eq_some_iff.1 found
    rw [form_of_blend? joined, typeAt_of_mem distinct isMember, Option.bind_some, blend?_regular joined]
  rw [blend, List.filterMap_congr each, List.filterMap_some]

/-! ### Any number of lists -/

/-- Joins lists from left to right. -/
def blendAll : List (List MethodType) → List MethodType
  | [] => []
  | first :: rest => rest.foldl blend first

variable {lists : List (List MethodType)}

theorem blendAll_concat (some : lists ≠ []) : blendAll (lists ++ [xs]) = blend (blendAll lists) xs := by
  cases lists with
  | nil => exact absurd rfl some
  | cons first rest => simp [blendAll]

/-- **Joining in groups** is joining one after the other. -/
theorem blendAll_flatten {groups : List (List (List MethodType))} (each : ∀ group ∈ groups, group ≠ []) :
    blendAll (groups.map blendAll) = blendAll groups.flatten := by
  have later : ∀ (groups : List (List (List MethodType))) (start : List MethodType),
      (∀ group ∈ groups, group ≠ []) →
        (groups.map blendAll).foldl blend start = groups.flatten.foldl blend start := by
    intro groups
    induction groups with
    | nil => exact fun _ _ => rfl
    | cons group groups ih =>
      intro start each
      obtain ⟨here, each'⟩ := List.forall_mem_cons.1 each
      obtain ⟨first, rest, rfl⟩ := List.exists_cons_of_ne_nil here
      have inner : (first :: rest).foldl blend start = blend start (blendAll (first :: rest)) :=
        List.foldl_assoc
      rw [List.flatten_cons, List.foldl_append, ← ih _ each', inner]
      rfl
  cases groups with
  | nil => rfl
  | cons group groups =>
    obtain ⟨here, each'⟩ := List.forall_mem_cons.1 each
    obtain ⟨first, rest, rfl⟩ := List.exists_cons_of_ne_nil here
    show (groups.map blendAll).foldl blend (rest.foldl blend first) =
      (rest ++ groups.flatten).foldl blend first
    rw [later groups _ each', List.foldl_append]

/-- A list that is among those that were joined adds nothing. -/
theorem blend_blendAll (distinct : ∀ xs ∈ lists, (xs.map MethodType.form).Nodup) (isMember : xs ∈ lists) :
    blend (blendAll lists) xs = blendAll lists := by
  induction lists using List.reverseRecOn with
  | nil => cases isMember
  | append_singleton lists last ih =>
    have distinct' : ∀ xs ∈ lists, (xs.map MethodType.form).Nodup := fun xs isMember =>
      distinct xs (List.mem_append_left _ isMember)
    have ofXs := distinct xs isMember
    by_cases some : lists = []
    · subst some
      obtain rfl := List.mem_singleton.1 isMember
      exact blend_self ofXs
    · rw [blendAll_concat some]
      rcases List.mem_append.1 isMember with earlier | here
      -- It is in what was joined before the last list, and adds nothing behind that either.
      · rw [← ih distinct' earlier, blend_assoc, blend_assoc, ← blend_assoc xs last xs, blend_regular ofXs,
          ← blend_assoc]
      · obtain rfl := List.mem_singleton.1 here
        rw [blend_assoc, blend_self ofXs]

/-- **Members that occur again** add nothing. -/
theorem blendAll_eraseDups {f : Ty → List MethodType} {ts : List Ty}
    (distinct : ∀ t ∈ ts, ((f t).map MethodType.form).Nodup) :
    blendAll (ts.eraseDups.map f) = blendAll (ts.map f) := by
  induction ts using List.reverseRecOn with
  | nil => rfl
  | append_singleton ts t ih =>
    have before := ih fun u isMember => distinct u (List.mem_append_left _ isMember)
    rw [eraseDups_concat, List.map_append, List.map_singleton]
    by_cases present : t ∈ ts
    · have some : ts.map f ≠ [] := by simpa using List.ne_nil_of_mem present
      have lists : ∀ xs ∈ ts.map f, (xs.map MethodType.form).Nodup :=
        List.forall_mem_map.2 fun u isMember => distinct u (List.mem_append_left _ isMember)
      rw [if_pos present, blendAll_concat some, before,
        blend_blendAll lists (List.mem_map_of_mem present)]
    · rw [if_neg present, List.map_append, List.map_singleton]
      cases ts with
      | nil => rfl
      | cons first rest =>
        have some : (first :: rest).eraseDups.map f ≠ [] := by
          have isFirst : first ∈ (first :: rest).eraseDups := List.mem_eraseDups.2 List.mem_cons_self
          simpa using List.ne_nil_of_mem isFirst
        rw [blendAll_concat some, before, blendAll_concat (by simp)]

end MethodType

/-! ### Overloads and interfaces -/

namespace JoinRule

open Overload (forms)
open MethodType (blend typeAt blendAll)

variable {ls rs js : List Overload}

theorem type_join? (l r : Overload) : (l.join? r).map Overload.type = l.type.blend? r.type := by
  by_cases same : l.type = r.type
  · rw [Overload.join?, if_pos same, same, MethodType.blend?_self, Option.map_some, same]
  · rw [Overload.join?, if_neg same, MethodType.blend?_of_ne same, Option.map_map]
    exact Option.map_id'

/-- The joins of one overload with a list without two overloads of one form: there is at most one. -/
theorem types_filterMap_join? (distinct : (forms rs).Nodup) (l : Overload) :
    (rs.filterMap l.join?).map Overload.type =
      ((typeAt (rs.map Overload.type) l.type.form).bind l.type.blend?).toList := by
  induction rs with
  | nil => rfl
  | cons r rs ih =>
    obtain ⟨isNew, distinct'⟩ := List.nodup_cons.1 distinct
    have later := ih distinct'
    by_cases same : r.type.form = l.type.form
    · have absent : typeAt (rs.map Overload.type) l.type.form = none := by
        refine List.find?_eq_none.2 fun type isType ofForm => isNew ?_
        obtain ⟨o, isOverload, rfl⟩ := List.mem_map.1 isType
        exact Overload.mem_forms.2 ⟨o, isOverload, (of_decide_eq_true ofForm).trans same.symm⟩
      rw [absent] at later
      have first : typeAt ((r :: rs).map Overload.type) l.type.form = some r.type := by
        simp [typeAt, same]
      rw [first, Option.bind_some, ← type_join?, List.filterMap_cons]
      cases l.join? r with
      | none => exact later
      | some j => exact congrArg _ later
    · have none : l.join? r = none := by
        by_contra found
        obtain ⟨j, found⟩ := Option.ne_none_iff_exists'.1 found
        exact same (Overload.exists_join?_iff.1 ⟨j, found⟩).symm
      have next : typeAt ((r :: rs).map Overload.type) l.type.form =
          typeAt (rs.map Overload.type) l.type.form := by simp [typeAt, same]
      rw [List.filterMap_cons, none, next, later]

theorem foldl_addJoined_of_nodup {os kept : List Overload}
    (distinct : ((kept ++ os).map Overload.type).Nodup) : os.foldl addJoined kept = kept ++ os := by
  induction os generalizing kept with
  | nil => simp
  | cons o os ih =>
    have isNew : o.type ∉ kept.map Overload.type := fun known => by
      rw [List.map_append, List.map_cons] at distinct
      exact (List.nodup_append.1 distinct).2.2 _ known _ List.mem_cons_self rfl
    rw [List.foldl_cons, addJoined, if_neg isNew, ih (by simpa using distinct)]
    simp

/-- **The method types of joined lists**, without two overloads of one form on either side. -/
theorem types_joinOverloads (ofLeft : (forms ls).Nodup) (ofRight : (forms rs).Nodup)
    (found : structural.joinOverloads ls rs = some js) :
    js.map Overload.type = blend (ls.map Overload.type) (rs.map Overload.type) := by
  rw [Overload.forms_eq] at ofLeft
  by_cases agree : ls.map Overload.type = rs.map Overload.type
  · rw [joinOverloads, if_pos agree, Option.some.injEq] at found
    rw [← found, ← agree, MethodType.blend_self ofLeft]
  · have all : (ls.flatMap fun l => rs.filterMap fun r => structural l r).map Overload.type =
        blend (ls.map Overload.type) (rs.map Overload.type) := by
      show (ls.flatMap fun l => rs.filterMap l.join?).map Overload.type = _
      rw [List.map_flatMap, List.flatMap_congr fun l _ => types_filterMap_join? ofRight l, blend,
        List.filterMap_eq_flatMap_toList, List.flatMap_map]
    have distinct : ((blend (ls.map Overload.type) (rs.map Overload.type)).map MethodType.form).Nodup :=
      (MethodType.forms_blend _ _).nodup ofLeft
    have pairs : structural.joinPairs ls rs = ls.flatMap fun l => rs.filterMap fun r => structural l r :=
      foldl_addJoined_of_nodup (by rw [List.nil_append, all]; exact distinct.of_map _)
    rw [joinOverloads, if_neg agree] at found
    rw [← all, ← pairs]
    cases joined : structural.joinPairs ls rs with
    | nil => rw [joined] at found; cases found
    | cons first rest =>
      rw [joined, Option.some.injEq] at found
      rw [found]

/-! ### Interfaces -/

variable {rule : JoinRule} {selfType : Ty} {includesPrivate : Bool} {name : Name}

/-- With any rule, the first members may be joined before the others. -/
theorem joinAll_front {front : List Interface} (some : front ≠ []) (rest : List Interface) :
    rule.joinAll selfType includesPrivate (rule.joinAll selfType includesPrivate front :: rest) =
      rule.joinAll selfType includesPrivate (front ++ rest) := by
  obtain ⟨first, front, rfl⟩ := List.exists_cons_of_ne_nil some
  exact (List.foldl_append ..).symm

end JoinRule

/-- The method types of the overloads of a method; there are none if there is no such method. -/
def Interface.typesOf (i : Interface) (name : Name) : List MethodType :=
  ((i.find? name).getD []).map Overload.type

theorem Interface.formsOf_eq (i : Interface) (name : Name) :
    i.formsOf name = (i.typesOf name).map MethodType.form := Overload.forms_eq _

namespace JoinRule

open MethodType (blend blendAll)

variable {selfType : Ty} {includesPrivate : Bool} {name : Name} {left right : Interface}
  {members : List Interface}

theorem typesOf_join (ofLeft : (left.formsOf name).Nodup) (ofRight : (right.formsOf name).Nodup)
    (present : ((structural.join selfType includesPrivate left right).find? name).isSome) :
    (structural.join selfType includesPrivate left right).typesOf name =
      blend (left.typesOf name) (right.typesOf name) := by
  unfold Interface.formsOf at ofLeft ofRight
  unfold Interface.typesOf
  rw [find?_join] at present ⊢
  cases inLeft : left.find? name with
  | none => rw [inLeft] at present; cases present
  | some ls =>
    cases inRight : right.find? name with
    | none => rw [inLeft, inRight] at present; cases present
    | some rs =>
      rw [inLeft] at ofLeft
      rw [inRight] at ofRight
      rw [inLeft, inRight, Option.bind_some, Option.bind_some] at present
      obtain ⟨js, joined⟩ := Option.isSome_iff_exists.1 present
      rw [Option.bind_some, Option.bind_some, joined]
      exact types_joinOverloads ofLeft ofRight joined

/-- **The method types of a method of a union**, where no member has two overloads of one form. -/
theorem typesOf_joinAll (distinct : ∀ i ∈ members, (i.formsOf name).Nodup)
    (present : ((structural.joinAll selfType includesPrivate members).find? name).isSome) :
    (structural.joinAll selfType includesPrivate members).typesOf name =
        blendAll (members.map fun i => i.typesOf name) ∧
      ((structural.joinAll selfType includesPrivate members).formsOf name).Nodup := by
  cases members with
  | nil => cases present
  | cons first rest =>
    induction rest generalizing first with
    | nil => exact ⟨rfl, distinct first List.mem_cons_self⟩
    | cons second rest ih =>
      obtain ⟨ofFirst, distinct'⟩ := List.forall_mem_cons.1 distinct
      obtain ⟨ofSecond, ofRest⟩ := List.forall_mem_cons.1 distinct'
      have both : ((structural.join selfType includesPrivate first second).find? name).isSome :=
        ((isSome_find?_joinAll_iff (structural.join selfType includesPrivate first second) rest).1
          present).1 _ List.mem_cons_self
      have types := typesOf_join ofFirst ofSecond both
      have ofBoth : ((structural.join selfType includesPrivate first second).formsOf name).Nodup := by
        rw [Interface.formsOf_eq, types]
        rw [Interface.formsOf_eq] at ofFirst
        exact (MethodType.forms_blend _ _).nodup ofFirst
      have later := ih (structural.join selfType includesPrivate first second)
        (List.forall_mem_cons.2 ⟨ofBoth, ofRest⟩) present
      rw [List.map_cons, types] at later
      exact later

/-- **When a union has a method**, and with which forms: of the members only which ones there are counts. -/
theorem joinAll_iff (some : members ≠ []) :
    (((structural.joinAll selfType includesPrivate members).find? name).isSome ↔
      (∀ i ∈ members, (i.find? name).isSome) ∧ ((∃ form, ∀ i ∈ members, form ∈ i.formsOf name) ∨
        ∀ i ∈ members, i.find? name = Option.some [])) ∧
    ∀ form, form ∈ (structural.joinAll selfType includesPrivate members).formsOf name ↔
      ∀ i ∈ members, form ∈ i.formsOf name := by
  obtain ⟨first, rest, rfl⟩ := List.exists_cons_of_ne_nil some
  exact ⟨isSome_find?_joinAll_iff first rest, fun _ => mem_formsOf_joinAll first rest⟩

/-- A method of a union has no overloads only if all members have it without overloads. -/
theorem find?_joinAll_eq_some_nil_iff (some : members ≠ []) :
    (structural.joinAll selfType includesPrivate members).find? name = Option.some [] ↔
      ∀ i ∈ members, i.find? name = Option.some [] := by
  obtain ⟨first, rest, rfl⟩ := List.exists_cons_of_ne_nil some
  induction rest generalizing first with
  | nil => simp [joinAll]
  | cons second rest ih =>
    have step := ih (structural.join selfType includesPrivate first second) (List.cons_ne_nil _ _)
    simp only [List.forall_mem_cons, find?_join_eq_some_nil_iff, and_assoc] at step ⊢
    exact step

/-! #### Joining in groups -/

section Groups

variable {κ : Type} {f : Ty → Interface} {group : κ → List Ty} {ks : List κ} (some : ks ≠ [])
  (each : ∀ k ∈ ks, group k ≠ [])

include some each

theorem map_eraseDups_flatMap_ne_nil : (ks.flatMap group).eraseDups.map f ≠ [] := by
  obtain ⟨k, others, rfl⟩ := List.exists_cons_of_ne_nil some
  obtain ⟨t, rest, found⟩ := List.exists_cons_of_ne_nil (each k List.mem_cons_self)
  have isMember : t ∈ ((k :: others).flatMap group).eraseDups :=
    List.mem_eraseDups.2 (List.mem_flatMap.2 ⟨k, List.mem_cons_self, found ▸ List.mem_cons_self⟩)
  simpa using List.ne_nil_of_mem isMember

/-- A form of the unions of some groups, joined, is one of all their members. -/
theorem mem_formsOf_groups {form : MethodType.Form} :
    form ∈ (structural.joinAll selfType includesPrivate
        (ks.map fun k => structural.joinAll selfType includesPrivate ((group k).map f))).formsOf name ↔
      ∀ t ∈ ks.flatMap group, form ∈ (f t).formsOf name := by
  rw [(joinAll_iff (by simpa using some)).2, List.forall_mem_map, List.forall_mem_flatMap]
  refine forall₂_congr fun k isKey => ?_
  rw [(joinAll_iff (by simpa using each k isKey)).2, List.forall_mem_map]

/-- The methods of the unions of some groups, joined, are those of the union of all their members. -/
theorem isSome_groups_iff :
    ((structural.joinAll selfType includesPrivate
        ((ks.flatMap group).eraseDups.map f)).find? name).isSome ↔
      ((structural.joinAll selfType includesPrivate
        (ks.map fun k => structural.joinAll selfType includesPrivate ((group k).map f))).find? name).isSome := by
  have someParts : (ks.map fun k => structural.joinAll selfType includesPrivate ((group k).map f)) ≠ [] := by
    simpa using some
  have someGroup : ∀ k ∈ ks, (group k).map f ≠ [] := fun k isKey => by simpa using each k isKey
  have empty : (∀ k ∈ ks, (structural.joinAll selfType includesPrivate ((group k).map f)).find? name =
      Option.some []) ↔ ∀ t ∈ ks.flatMap group, (f t).find? name = Option.some [] := by
    rw [List.forall_mem_flatMap]
    refine forall₂_congr fun k isKey => ?_
    rw [find?_joinAll_eq_some_nil_iff (someGroup k isKey), List.forall_mem_map]
  have common : (∃ form, ∀ k ∈ ks,
      form ∈ (structural.joinAll selfType includesPrivate ((group k).map f)).formsOf name) ↔
        ∃ form, ∀ t ∈ ks.flatMap group, form ∈ (f t).formsOf name := by
    refine exists_congr fun form => ?_
    rw [← mem_formsOf_groups some each, (joinAll_iff someParts).2, List.forall_mem_map]
  rw [(joinAll_iff (map_eraseDups_flatMap_ne_nil some each)).1, (joinAll_iff someParts).1]
  simp only [List.forall_mem_map, List.mem_eraseDups, empty, common]
  refine and_congr_left fun shared => ?_
  rw [List.forall_mem_flatMap]
  refine forall₂_congr fun k isKey => ?_
  rw [(joinAll_iff (someGroup k isKey)).1]
  simp only [List.forall_mem_map]
  -- What all members have in common, those of one group have in common.
  refine (and_iff_left ?_).symm
  rcases shared with ⟨form, all⟩ | all
  · exact Or.inl ⟨form, List.forall_mem_flatMap.1 all k isKey⟩
  · exact Or.inr (List.forall_mem_flatMap.1 all k isKey)

/-- The method types are the same as well, if no member has two overloads of one form. -/
theorem typesOf_groups (distinct : ∀ t ∈ ks.flatMap group, ((f t).formsOf name).Nodup)
    (present : ((structural.joinAll selfType includesPrivate
      (ks.map fun k => structural.joinAll selfType includesPrivate ((group k).map f))).find? name).isSome) :
    (structural.joinAll selfType includesPrivate ((ks.flatMap group).eraseDups.map f)).typesOf name =
      (structural.joinAll selfType includesPrivate
        (ks.map fun k => structural.joinAll selfType includesPrivate ((group k).map f))).typesOf name := by
  have inGroup : ∀ k ∈ ks,
      ((structural.joinAll selfType includesPrivate ((group k).map f)).find? name).isSome :=
    List.forall_mem_map.1 ((joinAll_iff (by simpa using some)).1.1 present).1
  have ofGroup := fun k isKey => typesOf_joinAll
    (List.forall_mem_map.2 (List.forall_mem_flatMap.1 distinct k isKey)) (inGroup k isKey)
  have ofWhole := (typesOf_joinAll (List.forall_mem_map.2 fun t isMember =>
    distinct t (List.mem_eraseDups.1 isMember)) ((isSome_groups_iff some each).2 present)).1
  have ofParts := (typesOf_joinAll (List.forall_mem_map.2 fun k isKey => (ofGroup k isKey).2) present).1
  have groupwise : (ks.map fun k => structural.joinAll selfType includesPrivate ((group k).map f)).map
      (fun i => i.typesOf name) =
        (ks.map fun k => (group k).map fun t => (f t).typesOf name).map blendAll := by
    rw [List.map_map, List.map_map]
    refine List.map_congr_left fun k isKey => ?_
    rw [Function.comp_apply, (ofGroup k isKey).1, List.map_map]
    rfl
  have flat : (ks.map fun k => (group k).map fun t => (f t).typesOf name).flatten =
      (ks.flatMap group).map fun t => (f t).typesOf name := by
    rw [← List.flatMap_def, List.map_flatMap]
  have once : blendAll ((ks.flatMap group).eraseDups.map fun t => (f t).typesOf name) =
      blendAll ((ks.flatMap group).map fun t => (f t).typesOf name) :=
    MethodType.blendAll_eraseDups fun t isMember => Interface.formsOf_eq _ _ ▸ distinct t isMember
  have regrouped := MethodType.blendAll_flatten
    (List.forall_mem_map.2 fun k isKey => by simpa using each k isKey :
      ∀ lists ∈ ks.map fun k => (group k).map fun t => (f t).typesOf name, lists ≠ [])
  rw [ofWhole, ofParts, groupwise, regrouped, flat, ← once, List.map_map]
  rfl

end Groups

/-- **Joining in groups**, where members may occur in several groups: the union has the same methods with
the same forms, and even the same method types if no member has two overloads of one form. -/
theorem joinAll_groups {κ : Type} (f : Ty → Interface) (group : κ → List Ty) {ks : List κ} (some : ks ≠ [])
    (each : ∀ k ∈ ks, group k ≠ []) (selfType : Ty) (includesPrivate : Bool) (name : Name) :
    let whole := structural.joinAll selfType includesPrivate ((ks.flatMap group).eraseDups.map f)
    let parts := structural.joinAll selfType includesPrivate
      (ks.map fun k => structural.joinAll selfType includesPrivate ((group k).map f))
    ((whole.find? name).isSome ↔ (parts.find? name).isSome) ∧
    (∀ form, form ∈ whole.formsOf name ↔ form ∈ parts.formsOf name) ∧
    ((∀ t ∈ ks.flatMap group, ((f t).formsOf name).Nodup) → whole.typesOf name = parts.typesOf name) := by
  intro whole parts
  have presence : (whole.find? name).isSome ↔ (parts.find? name).isSome := isSome_groups_iff some each
  refine ⟨presence, fun form => ?_, fun distinct => ?_⟩
  · rw [mem_formsOf_groups some each, (joinAll_iff (map_eraseDups_flatMap_ne_nil some each)).2]
    simp only [List.forall_mem_map, List.mem_eraseDups]
  · by_cases present : (parts.find? name).isSome
    · exact typesOf_groups some each distinct present
    · have absent : ∀ {i : Interface}, ¬ (i.find? name).isSome → i.typesOf name = [] := fun none => by
        rw [Interface.typesOf, Option.not_isSome_iff_eq_none.1 none]
        rfl
      rw [absent present, absent fun there => present (presence.1 there)]

end JoinRule

end SignatureAlgebra
