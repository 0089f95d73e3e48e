/-
**First occurrences.**

`List.eraseDups` keeps of a list what it holds, each where it first occurs. It can be followed from the end of the
list: one more element is kept unless it is there already.

* `eraseDups_concat` — one more element.
* `nodup_eraseDups`, `eraseDups_of_nodup` — nothing is there twice; `eraseDups_append_of_subset` — what is there
  already.
* `eraseDups_map`, `perm_eraseDups` — other elements in their place, and another order.
-/
import Mathlib.Data.List.Induction
import Mathlib.Data.List.Nodup

namespace SignatureAlgebra

variable {α β : Type} [DecidableEq α] [DecidableEq β] {as bs : List α}

/-- What is there already is no first occurrence. -/
theorem eraseDups_concat (as : List α) (a : α) :
    (as ++ [a]).eraseDups = if a ∈ as then as.eraseDups else as.eraseDups ++ [a] := by
  have single : [a].eraseDups = [a] := rfl
  rw [List.eraseDups_append, List.cons_removeAll]
  by_cases known : a ∈ as <;> simp [known, single, List.removeAll]

theorem nodup_eraseDups (as : List α) : as.eraseDups.Nodup := by
  induction as using List.reverseRecOn with
  | nil => exact List.nodup_nil
  | append_singleton as a ih =>
    rw [eraseDups_concat]
    by_cases known : a ∈ as
    · rw [if_pos known]
      exact ih
    · rw [if_neg known]
      exact ih.append (List.nodup_singleton a)
        (List.disjoint_singleton.2 fun isFirst => known (List.mem_eraseDups.1 isFirst))

theorem eraseDups_of_nodup (distinct : as.Nodup) : as.eraseDups = as := by
  induction as using List.reverseRecOn with
  | nil => rfl
  | append_singleton as a ih =>
    obtain ⟨before, _, apart⟩ := List.nodup_append.1 distinct
    have isNew : a ∉ as := fun known => apart a known a (List.mem_singleton_self a) rfl
    rw [eraseDups_concat, if_neg isNew, ih before]

theorem removeAll_of_subset (known : ∀ a ∈ as, a ∈ bs) : as.removeAll bs = [] :=
  List.filter_eq_nil_iff.2 fun a isMember => by simpa using known a isMember

theorem eraseDups_append_of_subset (known : ∀ b ∈ bs, b ∈ as) : (as ++ bs).eraseDups = as.eraseDups := by
  rw [List.eraseDups_append, removeAll_of_subset known]
  exact List.append_nil _

/-- First occurrences are found by what is told apart. -/
theorem eraseDups_map {h : α → β} (injective : ∀ a ∈ as, ∀ b ∈ as, h a = h b → a = b) :
    (as.map h).eraseDups = as.eraseDups.map h := by
  induction as using List.reverseRecOn with
  | nil => rfl
  | append_singleton as last ih =>
    have before : ∀ a ∈ as, ∀ b ∈ as, h a = h b → a = b := fun a isMember b isMember' =>
      injective a (List.mem_append_left _ isMember) b (List.mem_append_left _ isMember')
    have known : h last ∈ as.map h ↔ last ∈ as := by
      refine ⟨fun isImage => ?_, List.mem_map_of_mem⟩
      obtain ⟨a, isMember, same⟩ := List.mem_map.1 isImage
      exact injective a (List.mem_append_left _ isMember) last (by simp) same ▸ isMember
    rw [List.map_append, List.map_singleton, eraseDups_concat, eraseDups_concat, ih before]
    by_cases present : last ∈ as
    · rw [if_pos present, if_pos (known.2 present)]
    · rw [if_neg present, if_neg (mt known.1 present), List.map_append, List.map_singleton]

/-- What there is decides the first occurrences up to order. -/
theorem perm_eraseDups (same : ∀ a, a ∈ as ↔ a ∈ bs) : as.eraseDups.Perm bs.eraseDups :=
  (List.perm_ext_iff_of_nodup (nodup_eraseDups as) (nodup_eraseDups bs)).2 fun a => by
    rw [List.mem_eraseDups, List.mem_eraseDups, same a]

end SignatureAlgebra
