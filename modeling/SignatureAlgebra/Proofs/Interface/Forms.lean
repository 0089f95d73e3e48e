/-
**Which methods a union has.**

Overloads of one form can be joined and others cannot, and a join keeps the form. So whatever the joins do
to the overloads in between, a joined interface has exactly the forms of a method that all members have. A
method is there if its members have a form in common, or if all of them have it without any overloads. None
of this depends on the order of the members.

* `MethodType.Form` — type parameters, block and parameter shape; `Interface.formsOf` — those of a method.
* `MethodType.exists_join?_iff` — the forms decide what can be joined.
* `JoinRule.mem_formsOf_join`, `JoinRule.isSome_find?_join_iff` — one join.
* `JoinRule.mem_formsOf_joinAll`, `JoinRule.isSome_find?_joinAll_iff` — any number of joins.
* `JoinRule.joinAll_forms` — the statement, with the order of the members.
-/
import SignatureAlgebra.Proofs.Interface.Union

namespace SignatureAlgebra

/-! ### Forms -/

/-- What overloads that can be joined have in common. -/
structure MethodType.Form where
  typeParams : List Name
  block : Option Block
  shape : Params Unit
deriving DecidableEq

namespace MethodType

/-- The form of a method type: all but the types of its parameters and of its result. -/
def form (type : MethodType) : Form := ⟨type.typeParams, type.block, type.params.shape⟩

variable {left right joined : MethodType}

/-- A join has the form of both sides. -/
theorem form_of_join? (found : left.join? right = some joined) :
    joined.form = left.form ∧ joined.form = right.form := by
  obtain ⟨typeParams, block, pairs, lefts, rights, rfl⟩ := join?_eq_some found
  constructor
  · simp only [form, ← lefts, Params.shape_map]
  · simp only [form, ← rights, Params.shape_map, typeParams, block]

/-- **Method types of one form, and no others, have a join.** -/
theorem exists_join?_iff : (∃ joined, left.join? right = some joined) ↔ left.form = right.form := by
  constructor
  · rintro ⟨joined, found⟩
    obtain ⟨ofLeft, ofRight⟩ := form_of_join? found
    exact ofLeft.symm.trans ofRight
  · intro same
    obtain ⟨typeParams, block, shape⟩ := Form.mk.inj same
    obtain ⟨pairs, paired⟩ := Params.exists_zip?_iff.2 shape
    rw [join?, if_pos ⟨typeParams, block⟩, Params.zipWith?, paired]
    exact ⟨_, rfl⟩

end MethodType

namespace Overload

variable {left right joined : Overload}

/-- The type of a joined overload is that of both sides, or the join of their types. -/
theorem type_of_join? (found : left.join? right = some joined) :
    (joined.type = left.type ∧ joined.type = right.type) ∨
      left.type.join? right.type = some joined.type := by
  by_cases same : left.type = right.type
  · rw [join?, if_pos same, Option.some.injEq] at found
    exact Or.inl ⟨found ▸ rfl, found ▸ same⟩
  · rw [join?, if_neg same, Option.map_eq_some_iff] at found
    obtain ⟨type, joinedTypes, rfl⟩ := found
    exact Or.inr joinedTypes

theorem form_of_join? (found : left.join? right = some joined) :
    joined.type.form = left.type.form ∧ joined.type.form = right.type.form := by
  rcases type_of_join? found with ⟨ofLeft, ofRight⟩ | new
  · exact ⟨congrArg _ ofLeft, congrArg _ ofRight⟩
  · exact MethodType.form_of_join? new

theorem exists_join?_iff : (∃ joined, left.join? right = some joined) ↔ left.type.form = right.type.form := by
  by_cases same : left.type = right.type
  · rw [join?, if_pos same, same]
    exact ⟨fun _ => rfl, fun _ => ⟨left, rfl⟩⟩
  · rw [← MethodType.exists_join?_iff, join?, if_neg same]
    simp only [Option.map_eq_some_iff]
    constructor
    · rintro ⟨_, type, found, _⟩
      exact ⟨type, found⟩
    · rintro ⟨type, found⟩
      exact ⟨_, type, found, rfl⟩

/-- The forms of some overloads, in order. -/
def forms (overloads : List Overload) : List MethodType.Form := overloads.map fun o => o.type.form

theorem mem_forms {overloads : List Overload} {form : MethodType.Form} :
    form ∈ forms overloads ↔ ∃ o ∈ overloads, o.type.form = form := List.mem_map

theorem forms_eq (overloads : List Overload) :
    forms overloads = (overloads.map Overload.type).map MethodType.form := by
  rw [List.map_map]
  rfl

theorem forms_eq_of_types {ls rs : List Overload} (agree : ls.map Overload.type = rs.map Overload.type) :
    forms ls = forms rs := by
  rw [forms_eq, forms_eq, agree]

end Overload

/-- The forms of the overloads of a method; there are none if there is no such method. -/
def Interface.formsOf (i : Interface) (name : Name) : List MethodType.Form :=
  Overload.forms ((i.find? name).getD [])

/-! ### Joining two lists of overloads -/

namespace JoinRule

open Overload (forms mem_forms)

/-- Each method type once, but none is lost. -/
theorem mem_types_foldl_addJoined {overloads kept : List Overload} {type : MethodType} :
    type ∈ (overloads.foldl addJoined kept).map Overload.type ↔
      type ∈ kept.map Overload.type ∨ type ∈ overloads.map Overload.type := by
  induction overloads generalizing kept with
  | nil => simp
  | cons first rest ih =>
    rw [List.foldl_cons, ih]
    by_cases present : first.type ∈ kept.map Overload.type
    · rw [addJoined, if_pos present, List.map_cons, List.mem_cons]
      exact ⟨fun known => known.imp id Or.inr,
        fun known => known.elim Or.inl fun later => later.elim (fun same => Or.inl (same ▸ present)) Or.inr⟩
    · rw [addJoined, if_neg present]
      simp only [List.map_append, List.map_cons, List.map_nil, List.mem_append, List.mem_cons,
        List.not_mem_nil, or_false, or_assoc]

variable {ls rs js : List Overload} {form : MethodType.Form}

theorem mem_forms_joinPairs :
    form ∈ forms (structural.joinPairs ls rs) ↔ form ∈ forms ls ∧ form ∈ forms rs := by
  have viaTypes : ∀ os : List Overload, form ∈ forms os ↔
      ∃ type ∈ os.map Overload.type, MethodType.form type = form := fun os => by simp [forms]
  rw [viaTypes, joinPairs]
  simp only [mem_types_foldl_addJoined, List.map_nil, List.not_mem_nil, false_or]
  rw [← viaTypes, mem_forms]
  constructor
  · rintro ⟨j, joined, rfl⟩
    obtain ⟨l, isLeft, fromLeft⟩ := List.mem_flatMap.1 joined
    obtain ⟨r, isRight, found⟩ := List.mem_filterMap.1 fromLeft
    obtain ⟨ofLeft, ofRight⟩ := Overload.form_of_join? found
    exact ⟨mem_forms.2 ⟨l, isLeft, ofLeft.symm⟩, mem_forms.2 ⟨r, isRight, ofRight.symm⟩⟩
  · rintro ⟨inLeft, inRight⟩
    obtain ⟨l, isLeft, rfl⟩ := mem_forms.1 inLeft
    obtain ⟨r, isRight, same⟩ := mem_forms.1 inRight
    obtain ⟨j, found⟩ := Overload.exists_join?_iff.2 same.symm
    exact ⟨j, List.mem_flatMap.2 ⟨l, isLeft, List.mem_filterMap.2 ⟨r, isRight, found⟩⟩,
      (Overload.form_of_join? found).1⟩

/-- **The forms of joined lists** are those that both sides have. -/
theorem mem_forms_joinOverloads (found : structural.joinOverloads ls rs = some js) :
    form ∈ forms js ↔ form ∈ forms ls ∧ form ∈ forms rs := by
  by_cases agree : ls.map Overload.type = rs.map Overload.type
  · rw [joinOverloads, if_pos agree, Option.some.injEq] at found
    rw [← found, ← Overload.forms_eq_of_types agree, and_self]
  · rw [joinOverloads, if_neg agree] at found
    rw [← mem_forms_joinPairs]
    cases joined : structural.joinPairs ls rs with
    | nil => rw [joined] at found; cases found
    | cons first rest =>
      rw [joined, Option.some.injEq] at found
      rw [found]

/-- **When lists are joined**: they have a form in common, or neither has any overload. -/
theorem exists_joinOverloads_iff : (∃ js, structural.joinOverloads ls rs = some js) ↔
    (∃ form, form ∈ forms ls ∧ form ∈ forms rs) ∨ (ls = [] ∧ rs = []) := by
  by_cases agree : ls.map Overload.type = rs.map Overload.type
  · rw [joinOverloads, if_pos agree]
    refine iff_of_true ⟨ls, rfl⟩ ?_
    cases ls with
    | nil => exact Or.inr ⟨rfl, List.map_eq_nil_iff.1 agree.symm⟩
    | cons l ls =>
      refine Or.inl ⟨l.type.form, List.mem_cons_self, ?_⟩
      rw [← Overload.forms_eq_of_types agree]
      exact List.mem_cons_self
  · have notBoth : ¬ (ls = [] ∧ rs = []) := by
      rintro ⟨rfl, rfl⟩
      exact agree rfl
    rw [or_iff_left notBoth, joinOverloads, if_neg agree]
    simp only [← mem_forms_joinPairs]
    cases structural.joinPairs ls rs with
    | nil => simp [forms]
    | cons first rest => exact iff_of_true ⟨_, rfl⟩ ⟨_, List.mem_cons_self⟩

/-- Joined lists are empty only if both sides are. -/
theorem joinOverloads_eq_some_nil_iff : structural.joinOverloads ls rs = some [] ↔ ls = [] ∧ rs = [] := by
  constructor
  · intro found
    rcases exists_joinOverloads_iff.1 ⟨[], found⟩ with ⟨form, common⟩ | empty
    · cases (mem_forms_joinOverloads found).2 common
    · exact empty
  · rintro ⟨rfl, rfl⟩
    rfl

/-! ### Joining two interfaces -/

variable {selfType : Ty} {includesPrivate : Bool} {left right : Interface} {name : Name}

/-- **The forms of a method of two joined interfaces** are those that both have. -/
theorem mem_formsOf_join : form ∈ (structural.join selfType includesPrivate left right).formsOf name ↔
    form ∈ left.formsOf name ∧ form ∈ right.formsOf name := by
  unfold Interface.formsOf
  rw [find?_join]
  cases left.find? name with
  | none => exact ⟨nofun, nofun⟩
  | some ls =>
    cases right.find? name with
    | none => exact ⟨nofun, nofun⟩
    | some rs =>
      show form ∈ forms ((structural.joinOverloads ls rs).getD []) ↔ form ∈ forms ls ∧ form ∈ forms rs
      cases found : structural.joinOverloads ls rs with
      | some js => exact mem_forms_joinOverloads found
      | none =>
        refine ⟨nofun, fun common => ?_⟩
        obtain ⟨js, present⟩ := exists_joinOverloads_iff.2 (Or.inl ⟨form, common⟩)
        cases found.symm.trans present

/-- **When two joined interfaces have a method.** -/
theorem isSome_find?_join_iff :
    ((structural.join selfType includesPrivate left right).find? name).isSome ↔
      ((left.find? name).isSome ∧ (right.find? name).isSome) ∧
        ((∃ form, form ∈ left.formsOf name ∧ form ∈ right.formsOf name) ∨
          (left.find? name = some [] ∧ right.find? name = some [])) := by
  unfold Interface.formsOf
  rw [find?_join]
  cases left.find? name with
  | none => simp
  | some ls =>
    cases right.find? name with
    | none => simp
    | some rs =>
      simpa [Option.isSome_iff_exists] using exists_joinOverloads_iff

theorem find?_join_eq_some_nil_iff :
    (structural.join selfType includesPrivate left right).find? name = some [] ↔
      left.find? name = some [] ∧ right.find? name = some [] := by
  rw [find?_join]
  cases left.find? name with
  | none => simp
  | some ls =>
    cases right.find? name with
    | none => simp
    | some rs => simpa using joinOverloads_eq_some_nil_iff

/-! ### Joining all members -/

/-- **The forms of a method of a union** are those that all members have. -/
theorem mem_formsOf_joinAll (first : Interface) (rest : List Interface) :
    form ∈ (structural.joinAll selfType includesPrivate (first :: rest)).formsOf name ↔
      ∀ i ∈ first :: rest, form ∈ i.formsOf name := by
  induction rest generalizing first with
  | nil => simp [joinAll]
  | cons second rest ih =>
    have step := ih (structural.join selfType includesPrivate first second)
    rw [List.forall_mem_cons, mem_formsOf_join] at step
    rw [List.forall_mem_cons, List.forall_mem_cons, ← and_assoc]
    exact step

/-- **When a union has a method**: all members have it, and they have a form in common or no overloads at
all. -/
theorem isSome_find?_joinAll_iff (first : Interface) (rest : List Interface) :
    ((structural.joinAll selfType includesPrivate (first :: rest)).find? name).isSome ↔
      (∀ i ∈ first :: rest, (i.find? name).isSome) ∧
        ((∃ form, ∀ i ∈ first :: rest, form ∈ i.formsOf name) ∨
          ∀ i ∈ first :: rest, i.find? name = some []) := by
  induction rest generalizing first with
  | nil =>
    simp only [joinAll, List.foldl_nil, List.forall_mem_singleton]
    refine ⟨fun present => ⟨present, ?_⟩, fun present => present.1⟩
    obtain ⟨os, found⟩ := Option.isSome_iff_exists.1 present
    cases os with
    | nil => exact Or.inr found
    | cons o os => exact Or.inl ⟨o.type.form, by simp [Interface.formsOf, found, Overload.forms]⟩
  | cons second rest ih =>
    have step := ih (structural.join selfType includesPrivate first second)
    simp only [List.forall_mem_cons, mem_formsOf_join, isSome_find?_join_iff,
      find?_join_eq_some_nil_iff] at step
    simp only [List.forall_mem_cons]
    refine Iff.trans step ⟨?_, ?_⟩
    · rintro ⟨⟨⟨⟨inFirst, inSecond⟩, _⟩, inRest⟩, common⟩
      exact ⟨⟨inFirst, inSecond, inRest⟩, by simpa only [and_assoc] using common⟩
    -- What all members have in common, the first two have in common.
    · rintro ⟨⟨inFirst, inSecond, inRest⟩, ⟨form, ofFirst, ofSecond, ofRest⟩ | ⟨noFirst, noSecond, noRest⟩⟩
      · exact ⟨⟨⟨⟨inFirst, inSecond⟩, Or.inl ⟨form, ofFirst, ofSecond⟩⟩, inRest⟩,
          Or.inl ⟨form, ⟨ofFirst, ofSecond⟩, ofRest⟩⟩
      · exact ⟨⟨⟨⟨inFirst, inSecond⟩, Or.inr ⟨noFirst, noSecond⟩⟩, inRest⟩,
          Or.inr ⟨⟨noFirst, noSecond⟩, noRest⟩⟩

/-- **Which methods a union has**, and with which forms. A method is there exactly if all members have it and
either have a form of it in common or all have it without overloads, and its forms are then those that all
members have. So the methods and their forms are the same for every order of the members. -/
theorem joinAll_forms (selfType : Ty) (includesPrivate : Bool) (first : Interface)
    (rest : List Interface) (name : Name) :
    let joined := structural.joinAll selfType includesPrivate (first :: rest)
    ((joined.find? name).isSome ↔
      (∀ i ∈ first :: rest, (i.find? name).isSome) ∧
        ((∃ form, ∀ i ∈ first :: rest, form ∈ i.formsOf name) ∨
          ∀ i ∈ first :: rest, i.find? name = some [])) ∧
    (∀ form, form ∈ joined.formsOf name ↔ ∀ i ∈ first :: rest, form ∈ i.formsOf name) ∧
    ∀ others, others.Perm (first :: rest) →
      let joined' := structural.joinAll selfType includesPrivate others
      ((joined'.find? name).isSome ↔ (joined.find? name).isSome) ∧
        ∀ form, form ∈ joined'.formsOf name ↔ form ∈ joined.formsOf name := by
  intro joined
  refine ⟨isSome_find?_joinAll_iff first rest, fun form => mem_formsOf_joinAll first rest,
    fun others perm => ?_⟩
  cases others with
  | nil => cases perm.nil_eq
  | cons first' rest' =>
    refine ⟨?_, fun form => ?_⟩
    · rw [isSome_find?_joinAll_iff, isSome_find?_joinAll_iff]
      simp only [perm.mem_iff]
    · rw [mem_formsOf_joinAll, mem_formsOf_joinAll]
      simp only [perm.mem_iff]

/-- Three members of which two have an overload with one parameter and the last one has none with two: only
the overloads without parameters are joined, in any order. -/
theorem joinAll_forms_of_three :
    let none : Overload := .ofTypes .empty .nil
    let one : Overload := .ofTypes (.positional [.nil]) .boolean
    let two : Overload := .ofTypes (.positional [.nil, .nil]) .void
    let first := Interface.ofMethod .empty [one, none]
    let second := Interface.ofMethod .empty [none, two, one]
    let third := Interface.ofMethod .empty [.ofTypes .empty .boolean]
    let joined := structural.joinAll .selfType false [first, second, third]
    let joined' := structural.joinAll .selfType false [third, first, second]
    joined.find? .empty = some [.ofTypes .empty ⟨.compound .union [.nil, .boolean]⟩] ∧
      [third, first, second].Perm [first, second, third] ∧
      joined.formsOf .empty = [none.type.form] ∧
      none.type.form ∈ joined'.formsOf .empty := by
  intro none one two first second third joined joined'
  have found : joined.find? .empty = some [.ofTypes .empty ⟨.compound .union [.nil, .boolean]⟩] := by
    decide
  have perm : [third, first, second].Perm [first, second, third] :=
    (List.Perm.swap first third [second]).trans ((List.Perm.swap second third []).cons first)
  have forms : joined.formsOf .empty = [none.type.form] := by
    rw [Interface.formsOf, found]
    rfl
  obtain ⟨_, _, reordered⟩ := joinAll_forms .selfType false first [second, third] .empty
  exact ⟨found, perm, forms, ((reordered _ perm).2 _).2 (forms ▸ List.mem_cons_self)⟩

end JoinRule

end SignatureAlgebra
