/-
**Unions and intersections, by their leaves.**

A union or an intersection is built member by member: nested members are taken apart on the way, what is
there already is left out, and a word that absorbs the rest ends the matter at once. All of this comes to
doing one thing after the other with the leaves of the members: look for a word that absorbs, drop the word
that adds nothing, drop repetitions. So members may be grouped in any way, and their order counts for no more
than the order of the result and for which of two absorbing words is met first.

* `Ty.ofLeaves` — one thing after the other; `Ty.union_intersection_eq` — the statement.
* `Ty.SameMembers` — the same members in any order; `Ty.sameMembers_combine_iff` — where the order of what is
  connected does not count, and where it does.
* `Ty.combine_regardless` — grouping and order.
-/
import SignatureAlgebra.Proofs.Ty.Composition

namespace SignatureAlgebra.Ty

variable {c : Connective} {ts us : List Ty}

/-! ### One thing after the other -/

/-- What leaves come to: the first word that absorbs the others, or else all leaves but those that add nothing,
each once, where it first occurs. If none is left it is the word that adds nothing, and if one is left that
one. -/
def ofLeaves (c : Connective) (absorbing : List Ty) (unit : Ty) (all : List Ty) : Ty :=
  match all.find? (· ∈ absorbing) with
  | some word => word
  | none =>
    match (all.filter (· ≠ unit)).eraseDups with
    | [] => unit
    | [t] => t
    | members => ⟨.compound c members⟩

/-- **Connected types** are what all their leaves come to. -/
theorem combine_eq_ofLeaves (c : Connective) (ts : List Ty) :
    combine c ts = ofLeaves c [.any, ⟨.base c.zero⟩] (ofUnit c) (ts.flatMap (leaves c)) := by
  have absorbing : (fun t => decide (t ∈ [.any, (⟨.base c.zero⟩ : Ty)])) = c.absorbs := by
    funext t
    simp [Connective.absorbs]
  rw [combine_eq, ofLeaves, absorbing, filter_leaves]
  cases (ts.flatMap (leaves c)).find? c.absorbs with
  | some word => rfl
  | none => rcases (ts.flatMap (essence c)).eraseDups with _ | ⟨_, _ | ⟨_, _⟩⟩ <;> rfl

/-- **Unions and intersections**, with their members nested in any way. The first `any` or `top` among the
leaves is the whole union. Otherwise the union consists of the leaves other than `bottom`, each where it first
occurs; without any it is `bottom`, and a single one is the union itself. The same holds of intersections with
`top` and `bottom` exchanged. -/
theorem union_intersection_eq (ts : List Ty) :
    union ts = ofLeaves .union [.any, .top] .bottom (ts.flatMap (leaves .union)) ∧
    intersection ts = ofLeaves .intersection [.any, .bottom] .top (ts.flatMap (leaves .intersection)) :=
  ⟨combine_eq_ofLeaves .union ts, combine_eq_ofLeaves .intersection ts⟩

/-- In the second union `top`, deep inside, is met before `any`. -/
example : union [.nil, ⟨.compound .union [.boolean, ⟨.compound .union [.bottom, .nil, .void]⟩]⟩] =
      ⟨.compound .union [.nil, .boolean, .void]⟩ ∧
    union [.nil, ⟨.compound .union [.boolean, ⟨.compound .union [.top]⟩]⟩, .any] = .top := by
  decide

/-! ### The order of members -/

/-- Whether two types have the same members, in any order. -/
def SameMembers (c : Connective) (t u : Ty) : Prop := (leaves c t).Perm (leaves c u)

instance (t u : Ty) : Decidable (SameMembers c t u) :=
  inferInstanceAs (Decidable ((leaves c t).Perm (leaves c u)))

/-- Words that absorb are the only members of themselves. -/
theorem sameMembers_iff_of_absorbs {t u : Ty} (absorbs : c.absorbs t = true) (absorbs' : c.absorbs u = true) :
    SameMembers c t u ↔ t = u := by
  rw [SameMembers, leaves_of_not_isCompound (not_isCompound_of_absorbs absorbs),
    leaves_of_not_isCompound (not_isCompound_of_absorbs absorbs'), List.singleton_perm_singleton]

/-- **What connected types consist of**, if nothing absorbs: the first occurrences of what counts of each, or
the word that adds nothing. -/
theorem leaves_combine (quiet : NothingAbsorbs c ts) : leaves c (combine c ts) =
    if (ts.flatMap (essence c)).eraseDups = [] then [ofUnit c] else (ts.flatMap (essence c)).eraseDups := by
  rw [combine_of_nothingAbsorbs quiet]
  refine leaves_collapse fun t member => ?_
  obtain ⟨u, _, counts⟩ := List.mem_flatMap.1 (List.mem_eraseDups.1 member)
  exact (essence_spec counts).2.2

/-- Whether the leaves of two lists of types are the same, in any order and each any number of times. -/
def SameLeaves (c : Connective) (ts us : List Ty) : Prop :=
  ∀ leaf, leaf ∈ ts.flatMap (leaves c) ↔ leaf ∈ us.flatMap (leaves c)

instance : Decidable (SameLeaves c ts us) :=
  decidable_of_iff (ts.flatMap (leaves c) ⊆ us.flatMap (leaves c) ∧ us.flatMap (leaves c) ⊆ ts.flatMap (leaves c))
    ⟨fun ⟨there, back⟩ _ => ⟨fun isLeaf => there isLeaf, fun isLeaf => back isLeaf⟩,
      fun same => ⟨fun leaf => (same leaf).1, fun leaf => (same leaf).2⟩⟩

/-- The word that is met first of those that absorb the others, if there is one. -/
def firstAbsorbing (c : Connective) (ts : List Ty) : Option Ty := (ts.flatMap (leaves c)).find? c.absorbs

theorem combine_of_firstAbsorbing {word : Ty} (found : firstAbsorbing c ts = some word) : combine c ts = word := by
  rw [combine_eq, ← firstAbsorbing, found]

theorem SameLeaves.nothingAbsorbs_iff (same : SameLeaves c ts us) : NothingAbsorbs c ts ↔ NothingAbsorbs c us :=
  forall_congr' fun leaf => imp_congr_left (same leaf)

/-- In types with the same leaves a word that absorbs is met in both or in neither. -/
theorem SameLeaves.firstAbsorbing_cases (same : SameLeaves c ts us) :
    (NothingAbsorbs c ts ∧ firstAbsorbing c ts = none ∧ firstAbsorbing c us = none) ∨
      ∃ word word', firstAbsorbing c ts = some word ∧ firstAbsorbing c us = some word' := by
  by_cases quiet : NothingAbsorbs c ts
  · exact Or.inl ⟨quiet, Ty.nothingAbsorbs_iff.1 quiet, Ty.nothingAbsorbs_iff.1 (same.nothingAbsorbs_iff.1 quiet)⟩
  · have met : ∀ {list : List Ty}, ¬ NothingAbsorbs c list → ∃ word, firstAbsorbing c list = some word :=
      fun loud => Option.ne_none_iff_exists'.1 (mt Ty.nothingAbsorbs_iff.2 loud)
    obtain ⟨word, found⟩ := met quiet
    obtain ⟨word', found'⟩ := met (mt same.nothingAbsorbs_iff.2 quiet)
    exact Or.inr ⟨word, word', found, found'⟩

/-- Types with the same leaves, none of which absorbs, are connected to the same members. -/
theorem SameLeaves.sameMembers_of_quiet (same : SameLeaves c ts us) (quiet : NothingAbsorbs c ts) :
    SameMembers c (combine c ts) (combine c us) := by
  have perm : (ts.flatMap (essence c)).eraseDups.Perm (us.flatMap (essence c)).eraseDups :=
    perm_eraseDups fun leaf => by
      rw [← filter_leaves, ← filter_leaves, List.mem_filter, List.mem_filter, same leaf]
  have empty : (ts.flatMap (essence c)).eraseDups = [] ↔ (us.flatMap (essence c)).eraseDups = [] := by
    rw [← List.perm_nil, ← List.perm_nil]
    exact perm.congr_left []
  rw [SameMembers, leaves_combine quiet, leaves_combine (same.nothingAbsorbs_iff.1 quiet)]
  by_cases nothing : (us.flatMap (essence c)).eraseDups = []
  · rw [if_pos (empty.2 nothing), if_pos nothing]
  · rw [if_neg (mt empty.1 nothing), if_neg nothing]
    exact perm

/-- **What the order of members matters for**: types with the same leaves are connected to the same members
exactly if the same word that absorbs is met first, or none at all. -/
theorem sameMembers_combine_iff (same : SameLeaves c ts us) :
    SameMembers c (combine c ts) (combine c us) ↔ firstAbsorbing c ts = firstAbsorbing c us := by
  rcases same.firstAbsorbing_cases with ⟨quiet, none, none'⟩ | ⟨word, word', found, found'⟩
  · rw [none, none']
    exact iff_of_true (same.sameMembers_of_quiet quiet) rfl
  · rw [combine_of_firstAbsorbing found, combine_of_firstAbsorbing found', found, found', Option.some.injEq]
    exact sameMembers_iff_of_absorbs (List.find?_some found) (List.find?_some found')

example : ¬ SameMembers .union (union [.any, .top]) (union [.top, .any]) := by decide

/-- The same word that absorbs is met first if only one of the two occurs. -/
theorem SameLeaves.firstAbsorbing_eq (same : SameLeaves c ts us)
    (single : ¬ (.any ∈ ts.flatMap (leaves c) ∧ ⟨.base c.zero⟩ ∈ ts.flatMap (leaves c))) :
    firstAbsorbing c ts = firstAbsorbing c us := by
  rcases same.firstAbsorbing_cases with ⟨_, none, none'⟩ | ⟨word, word', found, found'⟩
  · rw [none, none']
  · have isLeaf : word ∈ ts.flatMap (leaves c) := List.mem_of_find?_eq_some found
    have isLeaf' : word' ∈ ts.flatMap (leaves c) := (same word').2 (List.mem_of_find?_eq_some found')
    rw [found, found', Option.some.injEq]
    rcases absorbs_iff.1 (List.find?_some found) with rfl | rfl <;>
      rcases absorbs_iff.1 (List.find?_some found') with rfl | rfl
    · rfl
    · exact absurd ⟨isLeaf, isLeaf'⟩ single
    · exact absurd ⟨isLeaf', isLeaf⟩ single
    · rfl

/-- **Neither grouping nor order matters.** Members that are connected first may as well stand on their own,
whatever they are connected to. Types with the same leaves are connected to the same members, in some order,
unless both words that absorb are among the leaves: then the first one is all that is left. -/
theorem combine_regardless (c : Connective) :
    (∀ before inner after : List Ty,
      combine c (before ++ [combine c inner] ++ after) = combine c (before ++ inner ++ after)) ∧
    ∀ ts us : List Ty, SameLeaves c ts us →
      ¬ (.any ∈ ts.flatMap (leaves c) ∧ ⟨.base c.zero⟩ ∈ ts.flatMap (leaves c)) →
        SameMembers c (combine c ts) (combine c us) := by
  refine ⟨fun before inner after => ?_, fun ts us same single => ?_⟩
  · exact (((Alike.refl before).append (alike_combine c inner)).append (.refl after)).combine_eq
  · exact (sameMembers_combine_iff same).2 (same.firstAbsorbing_eq single)

/-- `nil & top`, then `bool`; and `bool`, then `(nil & bool) & top`: the leaves are the same, in another order
and not each as often. -/
theorem combine_regardless_nested :
    let ts : List Ty := [⟨.compound .intersection [.nil, .top]⟩, .boolean]
    let us : List Ty := [.boolean, ⟨.compound .intersection [⟨.compound .intersection [.nil, .boolean]⟩, .top]⟩]
    SameLeaves .intersection ts us ∧
      ¬ (.any ∈ ts.flatMap (leaves .intersection) ∧ .bottom ∈ ts.flatMap (leaves .intersection)) ∧
      combine .intersection ts = ⟨.compound .intersection [.nil, .boolean]⟩ ∧
      combine .intersection us = ⟨.compound .intersection [.boolean, .nil]⟩ ∧
      SameMembers .intersection (combine .intersection ts) (combine .intersection us) := by
  intro ts us
  have same : SameLeaves .intersection ts us := by decide
  have single : ¬ (.any ∈ ts.flatMap (leaves .intersection) ∧ .bottom ∈ ts.flatMap (leaves .intersection)) := by
    decide
  exact ⟨same, single, by decide, by decide, (combine_regardless .intersection).2 ts us same single⟩

end SignatureAlgebra.Ty
