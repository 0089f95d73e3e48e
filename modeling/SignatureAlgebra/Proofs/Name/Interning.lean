/-
**Interning only appends.**

A text that is interned is found or appended, so the texts that were there stay where they are, and a name
keeps its text whatever is interned later. No text is appended twice: from an interner that has met nothing
but the well-known texts on, the name of a text is the only one that it has.

* `Interner.texts_prefix_intern`, `Interner.text?_intern` — one text.
* `Interner.meet` — any texts, one after the other; `Interner.nodup_initial_meet` — none is there twice.
* `Interner.intern_of_text?` — interning the text of a name gives the name and changes nothing.
-/
import Mathlib.Data.List.Nodup
import SignatureAlgebra.Name

namespace SignatureAlgebra.Interner

variable {names later : Interner} {text : String} {name : Name}

/-! ### One text -/

theorem texts_prefix_intern (names : Interner) (text : String) :
    names.texts <+: (names.intern text).2.texts := by
  unfold intern
  cases names.find? text with
  | some name => exact List.prefix_rfl
  | none => exact List.prefix_append _ _

theorem text?_of_prefix (grows : names.texts <+: later.texts) (known : names.text? name = some text) :
    later.text? name = some text := by
  obtain ⟨index, rfl⟩ := List.getElem?_eq_some_iff.1 known
  exact List.prefix_iff_getElem?.1 grows name.index index

theorem mem_texts_of_text? (known : names.text? name = some text) : text ∈ names.texts :=
  List.mem_of_getElem? known

/-- A text is found at a name whose text it is. -/
theorem text?_of_find? (found : names.find? text = some name) : names.text? name = some text := by
  obtain ⟨index, isIndex, rfl⟩ := Option.map_eq_some_iff.1 found
  obtain ⟨bound, there, _⟩ := List.idxOf?_eq_some_iff.1 isIndex
  exact (List.getElem?_eq_getElem bound).trans (congrArg some there)

/-- The name that a text gets is the name of that text. -/
theorem text?_intern (names : Interner) (text : String) :
    (names.intern text).2.text? (names.intern text).1 = some text := by
  unfold intern
  cases found : names.find? text with
  | some name => exact text?_of_find? found
  | none => exact List.getElem?_concat_length

theorem mem_texts_intern {added : String} (isText : text ∈ (names.intern added).2.texts) :
    text ∈ names.texts ∨ text = added := by
  unfold intern at isText
  cases found : names.find? added with
  | some name =>
    rw [found] at isText
    exact Or.inl isText
  | none =>
    rw [found] at isText
    exact (List.mem_append.1 isText).imp id List.mem_singleton.1

/-- No text is appended twice. -/
theorem nodup_intern (distinct : names.texts.Nodup) (text : String) :
    (names.intern text).2.texts.Nodup := by
  unfold intern
  cases found : names.find? text with
  | some name => exact distinct
  | none =>
    have isNew : text ∉ names.texts := List.idxOf?_eq_none_iff.1 (Option.map_eq_none_iff.1 found)
    refine List.nodup_append.2 ⟨distinct, List.nodup_singleton text, fun old isOld new isText same => ?_⟩
    exact isNew (List.mem_singleton.1 isText ▸ same ▸ isOld)

/-- Where no text is there twice, a text is found at its name. -/
theorem find?_of_text? (distinct : names.texts.Nodup) (known : names.text? name = some text) :
    names.find? text = some name := by
  obtain ⟨bound, there⟩ := List.getElem?_eq_some_iff.1 known
  refine Option.map_eq_some_iff.2 ⟨name.index, List.idxOf?_eq_some_iff.2 ⟨bound, there, ?_⟩, rfl⟩
  intro earlier isEarlier same
  have sameIndex : earlier = name.index :=
    distinct.getElem_inj_iff.1 (same.trans there.symm)
  exact Nat.ne_of_lt isEarlier sameIndex

/-- Interning the text of a name gives the name and changes nothing. -/
theorem intern_of_text? (distinct : names.texts.Nodup) (known : names.text? name = some text) :
    names.intern text = (name, names) := by
  rw [intern, find?_of_text? distinct known]

/-! ### Any texts -/

/-- The interner after some texts were met, one after the other. -/
def meet (names : Interner) (texts : List String) : Interner :=
  texts.foldl (fun names text => (names.intern text).2) names

theorem texts_prefix_meet (names : Interner) (texts : List String) :
    names.texts <+: (names.meet texts).texts := by
  induction texts generalizing names with
  | nil => exact List.prefix_rfl
  | cons text rest ih => exact (texts_prefix_intern names text).trans (ih (names.intern text).2)

theorem nodup_meet (distinct : names.texts.Nodup) (texts : List String) :
    (names.meet texts).texts.Nodup := by
  induction texts generalizing names with
  | nil => exact distinct
  | cons text rest ih => exact ih (nodup_intern distinct text)

/-- **Whatever is met, no text is there twice.** -/
theorem nodup_initial_meet (texts : List String) : (initial.meet texts).texts.Nodup :=
  nodup_meet (by decide) texts

end SignatureAlgebra.Interner
