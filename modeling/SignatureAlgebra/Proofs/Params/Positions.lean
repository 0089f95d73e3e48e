/-
**Parameter lists position by position.**

Pairing two parameter lists gives the one list of pairs whose left sides are the first list and whose
right sides are the second, so lists that can be paired have one shape.

* `Params.zip?_eq_some_iff` — what pairing gives.
* `Params.zipWith?_eq_some_iff` — what combining gives, from the pairs.
* `Params.exists_zip?_iff` — lists of one shape, and no others, can be paired.
-/
import SignatureAlgebra.Params

namespace SignatureAlgebra.Params

variable {α β γ : Type}

theorem zipList?_eq_some_iff {as : List α} {bs : List β} {pairs : List (α × β)} :
    zipList? as bs = some pairs ↔ pairs.map Prod.fst = as ∧ pairs.map Prod.snd = bs := by
  induction as generalizing bs pairs with
  | nil =>
    cases bs with
    | nil =>
      simp only [zipList?, Option.some.injEq, List.map_eq_nil_iff, and_self]
      exact eq_comm
    | cons b bs =>
      simp only [zipList?, reduceCtorEq, List.map_eq_nil_iff, false_iff]
      rintro ⟨rfl, impossible⟩
      cases impossible
  | cons a as ih =>
    cases bs with
    | nil =>
      simp only [zipList?, reduceCtorEq, List.map_eq_nil_iff, false_iff]
      rintro ⟨impossible, rfl⟩
      cases impossible
    | cons b bs =>
      simp only [zipList?, Option.map_eq_some_iff, ih]
      constructor
      · rintro ⟨rest, ⟨rfl, rfl⟩, rfl⟩
        exact ⟨rfl, rfl⟩
      · rintro ⟨left, right⟩
        cases pairs with
        | nil => cases left
        | cons pair rest =>
          obtain ⟨rfl, rfl⟩ := List.cons.inj left
          obtain ⟨rfl, rfl⟩ := List.cons.inj right
          exact ⟨rest, ⟨rfl, rfl⟩, rfl⟩

theorem zipRest?_eq_some_iff {o : Option α} {o' : Option β} {pair : Option (α × β)} :
    zipRest? o o' = some pair ↔ pair.map Prod.fst = o ∧ pair.map Prod.snd = o' := by
  cases o <;> cases o' <;> cases pair <;> simp [zipRest?, Prod.ext_iff, eq_comm]

theorem zipGaps?_eq_some_iff {gaps : List (Nat × α)} {gaps' : List (Nat × β)}
    {pairs : List (Nat × (α × β))} :
    NameMap.zipGaps? gaps gaps' = some pairs ↔
      (pairs.map fun entry => (entry.1, entry.2.1)) = gaps ∧
        (pairs.map fun entry => (entry.1, entry.2.2)) = gaps' := by
  induction gaps generalizing gaps' pairs with
  | nil =>
    cases gaps' with
    | nil =>
      simp only [NameMap.zipGaps?, Option.some.injEq, List.map_eq_nil_iff, and_self]
      exact eq_comm
    | cons entry rest =>
      simp only [NameMap.zipGaps?, reduceCtorEq, List.map_eq_nil_iff, false_iff]
      rintro ⟨rfl, impossible⟩
      cases impossible
  | cons entry rest ih =>
    obtain ⟨gap, a⟩ := entry
    cases gaps' with
    | nil =>
      simp only [NameMap.zipGaps?, reduceCtorEq, List.map_eq_nil_iff, false_iff]
      rintro ⟨impossible, rfl⟩
      cases impossible
    | cons entry' rest' =>
      obtain ⟨gap', b⟩ := entry'
      constructor
      · intro zipped
        by_cases same : gap = gap'
        · rw [NameMap.zipGaps?, if_pos same, Option.map_eq_some_iff] at zipped
          obtain ⟨more, zippedRest, rfl⟩ := zipped
          obtain ⟨rfl, rfl⟩ := ih.1 zippedRest
          subst same
          exact ⟨rfl, rfl⟩
        · rw [NameMap.zipGaps?, if_neg same] at zipped
          cases zipped
      · rintro ⟨left, right⟩
        cases pairs with
        | nil => cases left
        | cons pair more =>
          simp only [List.map_cons, List.cons.injEq, Prod.mk.injEq] at left right
          obtain ⟨⟨rfl, rfl⟩, rfl⟩ := left
          obtain ⟨⟨rfl, rfl⟩, rfl⟩ := right
          rw [NameMap.zipGaps?, if_pos rfl, ih.2 ⟨rfl, rfl⟩]
          rfl

theorem zipKeywords?_eq_some_iff {m : NameMap α} {m' : NameMap β} {pairs : NameMap (α × β)} :
    m.zip? m' = some pairs ↔ pairs.map Prod.fst = m ∧ pairs.map Prod.snd = m' := by
  cases m
  cases m'
  cases pairs
  simp [NameMap.zip?, NameMap.map, zipGaps?_eq_some_iff, Option.map_eq_some_iff]

/-- **Pairing** gives the list of pairs whose left and right sides are the two lists. -/
theorem zip?_eq_some_iff {p : Params α} {q : Params β} {pairs : Params (α × β)} :
    p.zip? q = some pairs ↔ pairs.map Prod.fst = p ∧ pairs.map Prod.snd = q := by
  obtain ⟨required, optional, rest, keywords, optionalKeywords, restKeywords⟩ := p
  obtain ⟨required', optional', rest', keywords', optionalKeywords', restKeywords'⟩ := q
  obtain ⟨r, o, s, k, l, t⟩ := pairs
  simp only [zip?, Option.bind_eq_bind, Option.bind_eq_some_iff, zipList?_eq_some_iff,
    zipRest?_eq_some_iff, zipKeywords?_eq_some_iff, map, mk.injEq, Option.some.injEq, pure]
  constructor
  · rintro ⟨_, ⟨rfl, rfl⟩, _, ⟨rfl, rfl⟩, _, ⟨rfl, rfl⟩, _, ⟨rfl, rfl⟩, _, ⟨rfl, rfl⟩, _,
      ⟨rfl, rfl⟩, rfl, rfl, rfl, rfl, rfl, rfl⟩
    exact ⟨⟨rfl, rfl, rfl, rfl, rfl, rfl⟩, ⟨rfl, rfl, rfl, rfl, rfl, rfl⟩⟩
  · rintro ⟨⟨rfl, rfl, rfl, rfl, rfl, rfl⟩, ⟨rfl, rfl, rfl, rfl, rfl, rfl⟩⟩
    exact ⟨_, ⟨rfl, rfl⟩, _, ⟨rfl, rfl⟩, _, ⟨rfl, rfl⟩, _, ⟨rfl, rfl⟩, _, ⟨rfl, rfl⟩, _,
      ⟨rfl, rfl⟩, rfl, rfl, rfl, rfl, rfl, rfl⟩

/-- **Combining** two lists combines the two sides of each pair. -/
theorem zipWith?_eq_some_iff {f : α → β → γ} {p : Params α} {q : Params β} {r : Params γ} :
    p.zipWith? f q = some r ↔
      ∃ pairs : Params (α × β), pairs.map Prod.fst = p ∧ pairs.map Prod.snd = q ∧
        (pairs.map fun pair => f pair.1 pair.2) = r := by
  simp only [zipWith?, Option.map_eq_some_iff, zip?_eq_some_iff, and_assoc]

theorem toList_positional (required : List α) : (positional required).toList = required := by
  show required ++ [] ++ [] ++ [] ++ [] ++ [] = required
  simp only [List.append_nil]

theorem SameShape.trans {p : Params α} {q : Params β} {r : Params γ} (first : p.SameShape q)
    (second : q.SameShape r) : p.SameShape r := Eq.trans first second

theorem sameShape_map_map (f : γ → α) (g : γ → β) (r : Params γ) : (r.map f).SameShape (r.map g) := by
  rw [SameShape, shape_map, shape_map]

/-! ### Lists that can be paired -/

theorem exists_zipList? {as : List α} {bs : List β}
    (same : (as.map fun _ => ()) = bs.map fun _ => ()) : ∃ pairs, zipList? as bs = some pairs := by
  induction as generalizing bs with
  | nil =>
    cases bs with
    | nil => exact ⟨[], rfl⟩
    | cons b bs => cases same
  | cons a as ih =>
    cases bs with
    | nil => cases same
    | cons b bs =>
      obtain ⟨pairs, paired⟩ := ih (List.cons.inj same).2
      exact ⟨(a, b) :: pairs, by rw [zipList?, paired]; rfl⟩

theorem exists_zipRest? {o : Option α} {o' : Option β}
    (same : (o.map fun _ => ()) = o'.map fun _ => ()) : ∃ pair, zipRest? o o' = some pair := by
  cases o <;> cases o' <;> simp_all [zipRest?]

theorem exists_zipGaps? {gaps : List (Nat × α)} {gaps' : List (Nat × β)}
    (same : (gaps.map fun entry => (entry.1, ())) = gaps'.map fun entry => (entry.1, ())) :
    ∃ pairs, NameMap.zipGaps? gaps gaps' = some pairs := by
  induction gaps generalizing gaps' with
  | nil =>
    cases gaps' with
    | nil => exact ⟨[], rfl⟩
    | cons entry rest => cases same
  | cons entry rest ih =>
    cases gaps' with
    | nil => cases same
    | cons entry' rest' =>
      obtain ⟨gap, a⟩ := entry
      obtain ⟨gap', b⟩ := entry'
      obtain ⟨here, later⟩ := List.cons.inj same
      obtain ⟨pairs, paired⟩ := ih later
      obtain rfl : gap = gap' := (Prod.mk.inj here).1
      exact ⟨(gap, (a, b)) :: pairs, by rw [NameMap.zipGaps?, if_pos rfl, paired]; rfl⟩

theorem exists_zipKeywords? {m : NameMap α} {m' : NameMap β}
    (same : (m.map fun _ => ()) = m'.map fun _ => ()) : ∃ pairs, m.zip? m' = some pairs := by
  obtain ⟨pairs, paired⟩ := exists_zipGaps? (NameMap.mk.inj same)
  exact ⟨⟨pairs⟩, by rw [NameMap.zip?, paired]; rfl⟩

/-- **Lists of one shape, and no others, can be paired.** -/
theorem exists_zip?_iff {p : Params α} {q : Params β} :
    (∃ pairs, p.zip? q = some pairs) ↔ p.SameShape q := by
  constructor
  · rintro ⟨pairs, paired⟩
    obtain ⟨rfl, rfl⟩ := zip?_eq_some_iff.1 paired
    exact sameShape_map_map _ _ pairs
  · intro same
    simp only [SameShape, shape, map, mk.injEq] at same
    obtain ⟨required, optional, rest, keywords, optionalKeywords, restKeywords⟩ := same
    obtain ⟨r, paired⟩ := exists_zipList? required
    obtain ⟨o, paired'⟩ := exists_zipList? optional
    obtain ⟨s, paired''⟩ := exists_zipRest? rest
    obtain ⟨k, named⟩ := exists_zipKeywords? keywords
    obtain ⟨l, named'⟩ := exists_zipKeywords? optionalKeywords
    obtain ⟨t, named''⟩ := exists_zipRest? restKeywords
    exact ⟨⟨r, o, s, k, l, t⟩, by
      simp only [zip?, paired, paired', paired'', named, named', named'', Option.bind_eq_bind,
        Option.bind_some, pure]⟩

end SignatureAlgebra.Params
