/-
**Look-ups in maps that are built from lists.**

The bindings of a map are in the order of their names, each name once, so a look-up in the list finds
what a look-up in the map does. Binding the names of a list from left to right leaves the last value
of each.

* `NameMap.lookup_toList` — the list of bindings answers as the map.
* `NameMap.find?_ofList`, `NameMap.find?_foldl_insert` — the last value of a name stays.
* `NameMap.find?_map`, `NameMap.find?_filterMap` — changing or dropping bindings, seen through one
  name.
* `NameMap.toList_map`, `NameMap.ofList_toList`, `NameMap.mem_values_iff` — the bindings and the values of a map.
-/
import Mathlib.Data.List.Basic
import SignatureAlgebra.NameMap

namespace SignatureAlgebra.NameMap

variable {α β : Type}

theorem lookup_listFrom (start : Nat) (gaps : List (Nat × α)) (name : Name) :
    (listFrom start gaps).lookup name =
      if name.index < start then none else findGap (name.index - start) gaps := by
  induction gaps generalizing start with
  | nil => simp [listFrom, findGap]
  | cons entry rest ih =>
    obtain ⟨gap, value⟩ := entry
    rw [listFrom, List.lookup_cons, ih, findGap]
    obtain ⟨index⟩ := name
    by_cases here : index = start + gap
    · subst here
      simp
    · have other : ((⟨index⟩ : Name) == ⟨start + gap⟩) = false := by simpa using here
      rw [other]
      by_cases before : index < start
      · have below : index < start + gap + 1 := by omega
        simp [before, below]
      · by_cases inGap : index - start < gap
        · have below : index < start + gap + 1 := by omega
          simp [before, inGap, below]
        · have above : ¬ index < start + gap + 1 := by omega
          have different : index - start ≠ gap := by omega
          have rest : index - (start + gap + 1) = index - start - gap - 1 := by omega
          simp [before, inGap, above, different, rest]

/-- **A look-up in the list of bindings finds what the map does.** -/
theorem lookup_toList (m : NameMap α) (name : Name) : m.toList.lookup name = m.find? name := by
  rw [toList, lookup_listFrom]
  simp [find?]

theorem le_of_mem_listFrom {start : Nat} {gaps : List (Nat × α)} {binding : Name × α}
    (member : binding ∈ listFrom start gaps) : start ≤ binding.1.index := by
  induction gaps generalizing start with
  | nil => cases member
  | cons entry rest ih =>
    obtain ⟨gap, value⟩ := entry
    rcases List.mem_cons.1 member with rfl | inRest
    · exact Nat.le_add_right start gap
    · have := ih inRest
      omega

theorem pairwise_listFrom (start : Nat) (gaps : List (Nat × α)) :
    (listFrom start gaps).Pairwise fun b b' => b.1 ≠ b'.1 := by
  induction gaps generalizing start with
  | nil => exact List.Pairwise.nil
  | cons entry rest ih =>
    obtain ⟨gap, value⟩ := entry
    refine List.pairwise_cons.2 ⟨fun binding member same => ?_, ih _⟩
    have later := le_of_mem_listFrom member
    rw [← same] at later
    simp only at later
    omega

/-- No name is bound twice. -/
theorem pairwise_toList (m : NameMap α) : m.toList.Pairwise fun b b' => b.1 ≠ b'.1 :=
  pairwise_listFrom 0 m.gaps

/-- A map without bindings finds nothing. -/
theorem find?_of_isEmpty {m : NameMap α} (none : m.isEmpty = true) (name : Name) :
    m.find? name = Option.none := by
  obtain ⟨gaps⟩ := m
  obtain rfl : gaps = [] := List.isEmpty_iff.1 none
  rfl

/-- The last value of each name stays, and other names keep what they were bound to. -/
theorem find?_foldl_insert (bindings : List (Name × α)) (m : NameMap α) (name : Name) :
    (bindings.foldl (fun m binding => m.insert binding.1 binding.2) m).find? name =
      (bindings.reverse.lookup name).or (m.find? name) := by
  induction bindings generalizing m with
  | nil => rfl
  | cons binding rest ih =>
    rw [List.foldl_cons, ih, find?_insert, List.reverse_cons, List.lookup_append,
      Option.or_assoc]
    congr 1
    rw [List.lookup_cons, List.lookup_nil]
    by_cases here : name = binding.1
    · simp [here]
    · have other : (name == binding.1) = false := by simpa using here
      simp [here, other]

theorem find?_ofList (bindings : List (Name × α)) (name : Name) :
    (ofList bindings).find? name = bindings.reverse.lookup name := by
  rw [ofList, find?_foldl_insert, find?_empty, Option.or_none]

theorem lookup_eq_none_of_forall {bindings : List (Name × α)} {name : Name}
    (absent : ∀ binding ∈ bindings, binding.1 ≠ name) : bindings.lookup name = none := by
  induction bindings with
  | nil => rfl
  | cons binding rest ih =>
    have other : (name == binding.1) = false := by
      simpa using (absent binding List.mem_cons_self).symm
    rw [List.lookup_cons, other]
    exact ih fun binding' member => absent binding' (List.mem_cons_of_mem _ member)

/-- Where no name is bound twice, the order of the bindings does not matter. -/
theorem lookup_reverse {bindings : List (Name × α)}
    (distinct : bindings.Pairwise fun b b' => b.1 ≠ b'.1) (name : Name) :
    bindings.reverse.lookup name = bindings.lookup name := by
  induction bindings with
  | nil => rfl
  | cons binding rest ih =>
    obtain ⟨first, others⟩ := List.pairwise_cons.1 distinct
    rw [List.reverse_cons, List.lookup_append, ih others, List.lookup_cons, List.lookup_cons,
      List.lookup_nil]
    by_cases here : name = binding.1
    · have absent : rest.lookup name = none :=
        lookup_eq_none_of_forall fun binding' member => by
          rw [here]
          exact (first binding' member).symm
      rw [absent]
      simp [here]
    · have other : (name == binding.1) = false := by simpa using here
      simp [other]

theorem lookup_filterMap (f : Name → α → Option β) {bindings : List (Name × α)}
    (distinct : bindings.Pairwise fun b b' => b.1 ≠ b'.1) (name : Name) :
    (bindings.filterMap fun binding => (f binding.1 binding.2).map (binding.1, ·)).lookup name =
      (bindings.lookup name).bind (f name) := by
  induction bindings with
  | nil => rfl
  | cons binding rest ih =>
    obtain ⟨first, others⟩ := List.pairwise_cons.1 distinct
    rw [List.filterMap_cons, List.lookup_cons]
    by_cases here : name = binding.1
    · have absent : rest.lookup name = none :=
        lookup_eq_none_of_forall fun binding' member => by
          rw [here]
          exact (first binding' member).symm
      subst here
      cases image : f binding.1 binding.2 with
      | none => simp [image, ih others, absent]
      | some value => simp [image]
    · have other : (name == binding.1) = false := by simpa using here
      rw [other]
      cases image : f binding.1 binding.2 with
      | none => simpa using ih others
      | some value => simpa [List.lookup_cons, other] using ih others

theorem pairwise_filterMap (f : Name → α → Option β) {bindings : List (Name × α)}
    (distinct : bindings.Pairwise fun b b' => b.1 ≠ b'.1) :
    (bindings.filterMap fun binding => (f binding.1 binding.2).map (binding.1, ·)).Pairwise
      fun b b' => b.1 ≠ b'.1 := by
  refine List.Pairwise.filterMap _ ?_ distinct
  rintro b b' different c image c' image'
  simp only [Option.map_eq_some_iff] at image image'
  obtain ⟨_, _, rfl⟩ := image
  obtain ⟨_, _, rfl⟩ := image'
  exact different

/-- **Changing or dropping bindings**, seen through one name. -/
theorem find?_filterMap (f : Name → α → Option β) (m : NameMap α) (name : Name) :
    (m.filterMap f).find? name = (m.find? name).bind (f name) := by
  rw [filterMap, find?_ofList, lookup_reverse (pairwise_filterMap f m.pairwise_toList),
    lookup_filterMap f m.pairwise_toList, lookup_toList]

theorem find?_map (f : α → β) (m : NameMap α) (name : Name) :
    (m.map f).find? name = (m.find? name).map f := by
  have shifted : ∀ (gaps : List (Nat × α)) (distance : Nat),
      findGap distance (gaps.map fun entry => (entry.1, f entry.2)) =
        (findGap distance gaps).map f := by
    intro gaps
    induction gaps with
    | nil => exact fun _ => rfl
    | cons entry rest ih =>
      intro distance
      obtain ⟨gap, value⟩ := entry
      simp only [List.map_cons, findGap, ih]
      split
      · rfl
      · split <;> rfl
  exact shifted m.gaps name.index

/-! ### Bindings and values -/

theorem listFrom_map (f : α → β) (start : Nat) (gaps : List (Nat × α)) :
    listFrom start (gaps.map fun entry => (entry.1, f entry.2)) =
      (listFrom start gaps).map fun binding => (binding.1, f binding.2) := by
  induction gaps generalizing start with
  | nil => rfl
  | cons entry rest ih =>
    rw [List.map_cons, listFrom, ih]
    rfl

theorem toList_map (f : α → β) (m : NameMap α) :
    (m.map f).toList = m.toList.map fun binding => (binding.1, f binding.2) := listFrom_map f 0 m.gaps

/-- Binding the bindings of a map again gives the map. -/
theorem ofList_toList (m : NameMap α) : ofList m.toList = m :=
  ext fun name => by rw [find?_ofList, lookup_reverse m.pairwise_toList, lookup_toList]

theorem lookup_map (f : α → β) (bindings : List (Name × α)) (name : Name) :
    (bindings.map fun binding => (binding.1, f binding.2)).lookup name = (bindings.lookup name).map f := by
  induction bindings with
  | nil => rfl
  | cons binding rest ih =>
    rw [List.map_cons, List.lookup_cons, List.lookup_cons, ih]
    cases name == binding.1 <;> rfl

/-- Changed values are bound to the same names. -/
theorem ofList_map (f : α → β) (bindings : List (Name × α)) :
    ofList (bindings.map fun binding => (binding.1, f binding.2)) = (ofList bindings).map f :=
  ext fun name => by rw [find?_map, find?_ofList, find?_ofList, ← List.map_reverse, lookup_map]

theorem map_snd_listFrom (start : Nat) (gaps : List (Nat × α)) :
    (listFrom start gaps).map Prod.snd = gaps.map Prod.snd := by
  induction gaps generalizing start with
  | nil => rfl
  | cons entry rest ih =>
    obtain ⟨gap, value⟩ := entry
    rw [listFrom, List.map_cons, ih, List.map_cons]

theorem lookup_eq_some_of_mem {bindings : List (Name × α)}
    (distinct : bindings.Pairwise fun b b' => b.1 ≠ b'.1) {binding : Name × α}
    (member : binding ∈ bindings) : bindings.lookup binding.1 = some binding.2 := by
  induction bindings with
  | nil => cases member
  | cons first rest ih =>
    obtain ⟨different, others⟩ := List.pairwise_cons.1 distinct
    rw [List.lookup_cons]
    rcases List.mem_cons.1 member with rfl | inRest
    · simp
    · have other : (binding.1 == first.1) = false := by
        simpa using (different binding inRest).symm
      rw [other]
      exact ih others inRest

/-- The values of a map are what is found in it. -/
theorem mem_values_iff {m : NameMap α} {value : α} :
    value ∈ m.values ↔ ∃ name, m.find? name = some value := by
  rw [values, ← map_snd_listFrom 0, List.mem_map]
  constructor
  · rintro ⟨binding, member, rfl⟩
    exact ⟨binding.1, (lookup_toList m _).symm.trans (lookup_eq_some_of_mem m.pairwise_toList member)⟩
  · rintro ⟨name, found⟩
    rw [← lookup_toList, List.lookup_eq_some_iff] at found
    obtain ⟨before, after, split, _⟩ := found
    have member : (name, value) ∈ m.toList := by rw [split]; simp
    exact ⟨(name, value), member, rfl⟩

theorem mem_of_mem_values_ofList {bindings : List (Name × α)} {value : α}
    (member : value ∈ (ofList bindings).values) : value ∈ bindings.map Prod.snd := by
  obtain ⟨name, found⟩ := mem_values_iff.1 member
  rw [find?_ofList, List.lookup_eq_some_iff] at found
  obtain ⟨before, after, split, _⟩ := found
  have bound : (name, value) ∈ bindings := by
    rw [← List.mem_reverse, split]
    simp
  exact List.mem_map.2 ⟨(name, value), bound, rfl⟩

end SignatureAlgebra.NameMap
