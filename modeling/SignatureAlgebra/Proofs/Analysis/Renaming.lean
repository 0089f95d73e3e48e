/-
**Type parameters that are taken get new names.**

Renaming goes through the type parameters of a method in order. One that is taken gets a name made for
it, and is bound to the variable of that name; any other keeps its name and is not bound. A substitution
that is merged in with precedence hides the new names of the type parameters that it binds itself.

* `Session.IsEntry` — what a type parameter is called afterwards.
* `Session.renameTaken_entries`, `Session.find?_renameTaken` — the names, and what is bound.
* `Substitution.find?_merge`, `Substitution.slot_merge` — what is bound and filled after merging.
* `Session.var_renameTaken_merge` — what stands in place of a type parameter of the method.
-/
import Mathlib.Data.List.Forall2
import SignatureAlgebra.Analysis.Instantiation
import SignatureAlgebra.Proofs.Analysis.Transparency
import SignatureAlgebra.Proofs.Name.Interning
import SignatureAlgebra.Proofs.NameMap.Lookup

namespace SignatureAlgebra

/-- Binds names to values one by one; of a name that is there twice the last value stays. -/
def NameMap.ofLists {α : Type} (names : List Name) (values : List α) : NameMap α :=
  .ofList (names.zip values)

theorem NameMap.find?_ofLists_cons {α : Type} (name : Name) (names : List Name) (value : α)
    (values : List α) (q : Name) :
    (ofLists (name :: names) (value :: values)).find? q =
      ((ofLists names values).find? q).or (if q = name then some value else none) := by
  rw [ofLists, ofLists, find?_ofList, find?_ofList, List.zip_cons_cons, List.reverse_cons,
    List.lookup_append, List.lookup_cons, List.lookup_nil]
  by_cases same : q = name
  · simp [same]
  · have other : (q == name) = false := by simpa using same
    rw [other, if_neg same]

theorem NameMap.find?_ofLists_of_mem {α : Type} {names : List Name} {values : List α}
    (length : names.length = values.length) {q : Name} (member : q ∈ names) :
    ∃ value, (ofLists names values).find? q = some value := by
  induction names generalizing values with
  | nil => cases member
  | cons name rest ih =>
    cases values with
    | nil => cases length
    | cons value values =>
      rw [find?_ofLists_cons]
      by_cases later : q ∈ rest
      · obtain ⟨found, isFound⟩ := ih (Nat.succ.inj length) later
        exact ⟨found, by rw [isFound]; rfl⟩
      · have same : q = name := by
          rcases List.mem_cons.1 member with first | inRest
          · exact first
          · exact absurd inRest later
        rw [if_pos same]
        cases (ofLists rest values).find? q with
        | none => exact ⟨value, rfl⟩
        | some found => exact ⟨found, rfl⟩

theorem NameMap.mem_zip_of_find?_ofLists {α : Type} {names : List Name} {values : List α} {q : Name}
    {value : α} (found : (ofLists names values).find? q = some value) :
    (q, value) ∈ names.zip values := by
  rw [ofLists, find?_ofList, List.lookup_eq_some_iff] at found
  obtain ⟨before, after, split, _⟩ := found
  rw [← List.mem_reverse, split]
  exact List.mem_append_right _ List.mem_cons_self

/-! ### New names -/

namespace Session

theorem grows_freshName (base : Name) (s : Session) : s.Grows (freshName base s).2 :=
  ⟨Interner.texts_prefix_intern s.names _, Nat.le_succ _, rfl⟩

/-- A name that was made for `q` between two sessions. -/
def NamesFresh (s later : Session) (q v : Name) : Prop :=
  ∃ here : Session, s.Grows here ∧ (freshName q here).1 = v ∧ (freshName q here).2.Grows later

/-- **What a type parameter is called** in an overload that is built between two sessions. -/
def IsEntry (s later : Session) (taken : List Name) (q v : Name) : Prop :=
  if q ∈ taken then s.NamesFresh later q v else v = q

theorem IsEntry.widen {s s' later later' : Session} {taken : List Name} {q v : Name}
    (entry : s'.IsEntry later taken q v) (before : s.Grows s') (after : later.Grows later') :
    s.IsEntry later' taken q v := by
  unfold IsEntry at entry ⊢
  by_cases clash : q ∈ taken
  · rw [if_pos clash] at entry ⊢
    obtain ⟨here, reached, made, left⟩ := entry
    exact ⟨here, before.trans reached, made, left.trans after⟩
  · rw [if_neg clash] at entry ⊢
    exact entry

theorem renameTaken_cons_of_mem {taken : List Name} {name : Name} (clash : name ∈ taken)
    (rest : List Name) (clashes : Substitution) (s : Session) :
    renameTaken taken (name :: rest) clashes s =
      let fresh := freshName name s
      let renamed := renameTaken taken rest (clashes.bind name (.var fresh.1)) fresh.2
      ((fresh.1 :: renamed.1.1, renamed.1.2), renamed.2) := by
  rw [renameTaken, if_pos clash]
  rfl

theorem renameTaken_cons_of_not_mem {taken : List Name} {name : Name} (free : name ∉ taken)
    (rest : List Name) (clashes : Substitution) (s : Session) :
    renameTaken taken (name :: rest) clashes s =
      let renamed := renameTaken taken rest clashes s
      ((name :: renamed.1.1, renamed.1.2), renamed.2) := by
  rw [renameTaken, if_neg free]
  rfl

theorem renameTaken_entries (taken vars : List Name) (clashes : Substitution) (s : Session) :
    s.Grows (renameTaken taken vars clashes s).2 ∧
      List.Forall₂ (s.IsEntry (renameTaken taken vars clashes s).2 taken) vars
        (renameTaken taken vars clashes s).1.1 := by
  induction vars generalizing clashes s with
  | nil => exact ⟨Grows.refl s, List.Forall₂.nil⟩
  | cons name rest ih =>
    by_cases clash : name ∈ taken
    · rw [renameTaken_cons_of_mem clash]
      have first := grows_freshName name s
      obtain ⟨grows, entries⟩ := ih (clashes.bind name (.var (freshName name s).1))
        (freshName name s).2
      refine ⟨first.trans grows, List.Forall₂.cons ?_ ?_⟩
      · rw [IsEntry, if_pos clash]
        exact ⟨s, Grows.refl s, rfl, grows⟩
      · exact entries.imp fun q v entry => entry.widen first (Grows.refl _)
    · rw [renameTaken_cons_of_not_mem clash]
      obtain ⟨grows, entries⟩ := ih clashes s
      refine ⟨grows, List.Forall₂.cons ?_ entries⟩
      rw [IsEntry, if_neg clash]

/-- A taken type parameter is bound to the variable of its last new name, any other to nothing. -/
theorem find?_renameTaken (taken vars : List Name) (clashes : Substitution) (s : Session)
    (q : Name) :
    (renameTaken taken vars clashes s).1.2.bindings.find? q =
      if q ∈ taken then
        (((NameMap.ofLists vars (renameTaken taken vars clashes s).1.1).find? q).map Ty.var).or
          (clashes.bindings.find? q)
      else clashes.bindings.find? q := by
  induction vars generalizing clashes s with
  | nil =>
    show clashes.bindings.find? q = _
    simp [NameMap.ofLists, NameMap.find?_ofList]
  | cons name rest ih =>
    by_cases clash : name ∈ taken
    · rw [renameTaken_cons_of_mem clash]
      simp only [ih, NameMap.find?_ofLists_cons, Substitution.bind, NameMap.find?_insert]
      -- An earlier binding of the same name is hidden by the last one.
      by_cases same : q = name
      · simp [same, clash]
      · simp [same]
    · rw [renameTaken_cons_of_not_mem clash]
      simp only [ih, NameMap.find?_ofLists_cons]
      by_cases taken' : q ∈ taken
      · have different : q ≠ name := fun same => clash (same ▸ taken')
        simp [taken', different]
      · simp [taken']

/-- Renaming fills no placeholder in. -/
theorem slot_renameTaken (taken vars : List Name) (clashes : Substitution) (s : Session)
    (word : Placeholder) : (renameTaken taken vars clashes s).1.2.slot word = clashes.slot word := by
  induction vars generalizing clashes s with
  | nil => rfl
  | cons name rest ih =>
    by_cases clash : name ∈ taken
    · rw [renameTaken_cons_of_mem clash]
      exact ih _ _
    · rw [renameTaken_cons_of_not_mem clash]
      exact ih _ _

end Session

/-! ### Merging -/

theorem Substitution.find?_merge (s other : Substitution) (q : Name) :
    (s.merge other true).bindings.find? q =
      (other.bindings.find? q).or (s.bindings.find? q) := by
  have bindings : (s.merge other true).bindings = other.bindings.toList.foldl
      (fun m binding => m.insert binding.1 binding.2) s.bindings := by
    simp [merge]
  rw [bindings, NameMap.find?_foldl_insert, NameMap.lookup_reverse other.bindings.pairwise_toList,
    NameMap.lookup_toList]

theorem Substitution.slot_merge (s other : Substitution) (word : Placeholder) :
    (s.merge other true).slot word = (other.slot word).or (s.slot word) := by
  simp only [merge]
  cases s.slot word <;> cases other.slot word <;> rfl

theorem Substitution.isEmpty_merge {s other : Substitution} {t : Ty}
    (filled : other.slot .selfType = some t) : (s.merge other true).isEmpty = false := by
  have slot : (s.merge other true).slot .selfType = some t := by
    rw [slot_merge, filled]
    rfl
  simp [isEmpty, slot]

theorem Substitution.apply_eq {s : Substitution} (some : s.isEmpty = false) (t : Ty) :
    s.apply t = t.replace s.replacement := by
  rw [apply, some, if_neg Bool.false_ne_true]

theorem Substitution.applyParams_eq {s : Substitution} (some : s.isEmpty = false) (p : Params Ty) :
    s.applyParams p = p.map (Ty.replace s.replacement) := by
  rw [applyParams, some, if_neg Bool.false_ne_true]

theorem Substitution.applyParams_eq_map (s : Substitution) (p : Params Ty) :
    s.applyParams p = p.map s.apply := by
  unfold applyParams apply
  cases s.isEmpty
  · simp
  · exact p.map_id.symm

/-- **What stands in place of a variable**: what the substitution binds it to, and only if it binds it
to nothing the variable of the name that it has got as a type parameter of the method. -/
theorem Session.var_renameTaken_merge (taken vars : List Name) (s : Session) (other : Substitution)
    (q : Name) :
    let entries := (renameTaken taken vars .empty s).1.1
    ((renameTaken taken vars .empty s).1.2.merge other true).replacement.var q =
      (other.bindings.find? q).getD (.var (((NameMap.ofLists vars entries).find? q).getD q)) := by
  intro entries
  have alone : ((renameTaken taken vars .empty s).1.2.bindings.find? q).getD (.var q) =
      .var (((NameMap.ofLists vars entries).find? q).getD q) := by
    rw [find?_renameTaken]
    by_cases clash : q ∈ taken
    · rw [if_pos clash]
      cases (NameMap.ofLists vars entries).find? q <;> rfl
    · rw [if_neg clash]
      cases entry : (NameMap.ofLists vars entries).find? q with
      | none => rfl
      | some v =>
        have own := (List.forall₂_iff_zip.1 (renameTaken_entries taken vars .empty s).2).2
          (NameMap.mem_zip_of_find?_ofLists entry)
        rw [IsEntry, if_neg clash] at own
        rw [own]
        rfl
  show (((renameTaken taken vars .empty s).1.2.merge other true).bindings.find? q).getD (.var q) = _
  rw [Substitution.find?_merge]
  cases other.bindings.find? q with
  | none => exact alone
  | some t => rfl

end SignatureAlgebra
