/-
**Names and texts are in bijection.**

Whatever texts are interned, an interner holds each of them once, in the order in which they were first met.
So finding the name of a text and reading the text of a name are inverse to each other, and each text keeps its
name. Tables with an index give the same names and hold the same texts: what the index answers is what a search
through the texts would find, and a text that is appended keeps it so.

* `Interner.find?_eq_some_iff` — finding and reading are inverse.
* `Interner.texts_meet` — what an interner holds after some texts.
* `Tables.Mirror` — tables that answer as an interner does; `Tables.Mirror.tryIntern`, `Tables.Mirror.internEach`
  — one text, and any texts one after the other.
* `Interner.internEach_bijective` — any texts, up to the largest index.
-/
import Mathlib.Data.List.Forall2
import SignatureAlgebra.Name.Tables
import SignatureAlgebra.Proofs.FirstOccurrences
import SignatureAlgebra.Proofs.Name.Interning

namespace SignatureAlgebra.Interner

variable {names later : Interner} {text : String} {name : Name} {met : List String} {given : List Name}

/-! ### One text -/

/-- Where no text is there twice, **finding and reading are inverse**. -/
theorem find?_eq_some_iff (distinct : names.texts.Nodup) :
    names.find? text = some name ↔ names.text? name = some text :=
  ⟨text?_of_find?, find?_of_text? distinct⟩

theorem find?_eq_none_iff : names.find? text = none ↔ text ∉ names.texts :=
  Option.map_eq_none_iff.trans List.idxOf?_eq_none_iff

/-- The names of an interner are the places of its texts. -/
theorem exists_text?_iff : (∃ text, names.text? name = some text) ↔ name.index < names.size := by
  simp only [text?, size, List.getElem?_eq_some_iff]
  exact ⟨fun ⟨_, bound, _⟩ => bound, fun bound => ⟨_, bound, rfl⟩⟩

/-- The texts after one more text. -/
theorem texts_intern (names : Interner) (text : String) :
    (names.intern text).2.texts = if text ∈ names.texts then names.texts else names.texts ++ [text] := by
  unfold intern
  cases found : names.find? text with
  | some name => rw [if_pos (mem_texts_of_text? (text?_of_find? found))]
  | none => rw [if_neg (find?_eq_none_iff.1 found)]

/-- An appended text is found at the end, and other texts where they were. -/
theorem find?_concat (isNew : text ∉ names.texts) (sought : String) :
    (⟨names.texts ++ [text]⟩ : Interner).find? sought =
      if sought = text then some ⟨names.size⟩ else names.find? sought := by
  have search : (names.texts ++ [text]).idxOf? sought =
      (names.texts.idxOf? sought).or (([text].idxOf? sought).map (· + names.size)) := List.findIdx?_append
  rw [find?, find?, search]
  by_cases here : sought = text
  · subst here
    rw [List.idxOf?_eq_none_iff.2 isNew, if_pos rfl, List.idxOf?_cons]
    simp
  · have elsewhere : (text == sought) = false := by simpa using Ne.symm here
    rw [if_neg here, List.idxOf?_cons, elsewhere, List.idxOf?_nil]
    simp

/-- A text is refused only if it is new and every index is used. -/
theorem tryIntern_eq_ok (within : (names.intern text).2.size ≤ maxIndex + 1) :
    names.tryIntern text = .ok (names.intern text) := by
  refine if_neg ?_
  rintro ⟨isNew, full⟩
  have absent : text ∉ names.texts := find?_eq_none_iff.1 (Option.isNone_iff_eq_none.1 isNew)
  have longer : (names.intern text).2.size = names.size + 1 := by
    rw [size, texts_intern, if_neg absent, List.length_append]
    rfl
  omega

/-! ### Any texts -/

theorem meet_cons (names : Interner) (text : String) (rest : List String) :
    names.meet (text :: rest) = (names.intern text).2.meet rest := rfl

/-- **What an interner holds**: the texts met so far, each where it first occurs. -/
theorem texts_meet (distinct : names.texts.Nodup) (met : List String) :
    (names.meet met).texts = (names.texts ++ met).eraseDups := by
  induction met using List.reverseRecOn with
  | nil => rw [List.append_nil, eraseDups_of_nodup distinct]; rfl
  | append_singleton met text ih =>
    have last : names.meet (met ++ [text]) = ((names.meet met).intern text).2 := List.foldl_concat ..
    rw [last, texts_intern, ih, ← List.append_assoc, eraseDups_concat]
    simp only [List.mem_eraseDups]

/-- Each text gets a name whose text it is after all of them. -/
theorem internEach_tryIntern (within : (names.meet met).size ≤ maxIndex + 1) :
    ∃ given, internEach tryIntern met names = .ok (given, names.meet met) ∧
      List.Forall₂ (fun text name => (names.meet met).text? name = some text) met given := by
  induction met generalizing names with
  | nil => exact ⟨[], rfl, .nil⟩
  | cons text rest ih =>
    rw [meet_cons] at within ⊢
    obtain ⟨more, run, read⟩ := ih within
    have grows := texts_prefix_meet (names.intern text).2 rest
    have first : names.tryIntern text = .ok (names.intern text) :=
      tryIntern_eq_ok (Nat.le_trans grows.length_le within)
    have isText := text?_of_prefix grows (text?_intern names text)
    refine ⟨(names.intern text).1 :: more, ?_, .cons isText read⟩
    rw [internEach, first]
    simp only [bind, Except.bind, run]
    rfl

/-! ### The two tables -/

namespace Tables

variable {tables : Tables}

/-- **Tables that answer as an interner does**: they hold its texts, and the index gives what a search through
them finds. -/
structure Mirror (tables : Tables) (names : Interner) : Prop where
  texts : tables.texts = names.texts
  find? : ∀ text, tables.find? text = names.find? text

theorem Mirror.text? (mirror : tables.Mirror names) (name : Name) : tables.text? name = names.text? name := by
  rw [Tables.text?, mirror.texts]
  rfl

theorem mirror_blank : blank.Mirror ⟨[""]⟩ where
  texts := rfl
  find? text := by
    rw [Tables.find?, blank, List.lookup_cons, Interner.find?, List.idxOf?_cons, BEq.comm]
    cases "" == text <;> rfl

/-- One text gets the same name, and the tables still answer as the interner does. -/
theorem Mirror.tryIntern (mirror : tables.Mirror names) (answered : names.tryIntern text = .ok (name, later)) :
    ∃ next, tables.tryIntern text = .ok (name, next) ∧ next.Mirror later := by
  have sameSize : tables.size = names.size := congrArg List.length mirror.texts
  unfold Interner.tryIntern intern at answered
  unfold Tables.tryIntern
  rw [mirror.find? text, sameSize]
  cases found : names.find? text with
  | some known =>
    rw [found] at answered
    obtain ⟨rfl, rfl⟩ := Prod.mk.inj (Except.ok.inj answered)
    exact ⟨tables, rfl, mirror⟩
  | none =>
    by_cases full : maxIndex < names.size
    · simp only [found, Option.isNone_none, full, and_self, if_true] at answered
      cases answered
    · simp only [found, Option.isNone_none, full, and_false, if_false] at answered
      obtain ⟨rfl, rfl⟩ := Prod.mk.inj (Except.ok.inj answered)
      refine ⟨_, if_neg full, congrArg (· ++ [text]) mirror.texts, fun sought => ?_⟩
      rw [find?_concat (find?_eq_none_iff.1 found), ← mirror.find? sought, Tables.find?, Tables.find?,
        List.lookup_cons]
      by_cases here : sought = text
      · rw [if_pos here, beq_iff_eq.2 here]
        rfl
      · rw [if_neg here, beq_false_of_ne here]

/-- Any texts get the same names. -/
theorem Mirror.internEach (mirror : tables.Mirror names)
    (answered : internEach Interner.tryIntern met names = .ok (given, later)) :
    ∃ next, Interner.internEach Tables.tryIntern met tables = .ok (given, next) ∧ next.Mirror later := by
  induction met generalizing names tables given with
  | nil =>
    obtain ⟨rfl, rfl⟩ := Prod.mk.inj (Except.ok.inj answered)
    exact ⟨tables, rfl, mirror⟩
  | cons text rest ih =>
    rw [Interner.internEach] at answered
    cases first : names.tryIntern text with
    | error e => rw [first] at answered; cases answered
    | ok head =>
      obtain ⟨name, between⟩ := head
      obtain ⟨next, stored, mirror'⟩ := mirror.tryIntern first
      rw [first] at answered
      cases run : Interner.internEach Interner.tryIntern rest between with
      | error e => simp only [bind, Except.bind, run] at answered; cases answered
      | ok tail =>
        obtain ⟨more, last⟩ := tail
        simp only [bind, Except.bind, run] at answered
        obtain ⟨rfl, rfl⟩ := Prod.mk.inj (Except.ok.inj answered)
        obtain ⟨next', stored', mirror''⟩ := ih mirror' run
        refine ⟨next', ?_, mirror''⟩
        rw [Interner.internEach, stored]
        simp only [bind, Except.bind, stored']
        rfl

theorem Mirror.find?_eq_some_iff (mirror : tables.Mirror names) (distinct : names.texts.Nodup) (text : String)
    (name : Name) : tables.find? text = some name ↔ tables.text? name = some text := by
  rw [mirror.find?, mirror.text?]
  exact Interner.find?_eq_some_iff distinct

/-- Where finding and reading are inverse, two calls gave one name exactly if they were given one text. -/
theorem name_eq_iff_of_mem_zip
    (inverse : ∀ text name, tables.find? text = some name ↔ tables.text? name = some text)
    (read : List.Forall₂ (fun text name => tables.text? name = some text) met given)
    {call call' : String × Name} (isCall : call ∈ met.zip given) (isCall' : call' ∈ met.zip given) :
    call.2 = call'.2 ↔ call.1 = call'.1 := by
  have isText := (List.forall₂_iff_zip.1 read).2 isCall
  have isText' := (List.forall₂_iff_zip.1 read).2 isCall'
  constructor
  · intro same
    rw [same, isText'] at isText
    exact (Option.some.inj isText).symm
  · intro same
    rw [← inverse, same] at isText
    rw [← inverse, isText] at isText'
    exact Option.some.inj isText'

theorem mirror_initial : initial.Mirror Interner.initial := by
  have run : ∃ given, Interner.internEach Interner.tryIntern wellKnownTexts ⟨[""]⟩ =
      .ok (given, Interner.initial) := ⟨_, rfl⟩
  obtain ⟨given, run⟩ := run
  obtain ⟨next, stored, mirror⟩ := mirror_blank.internEach run
  rw [initial, stored]
  exact mirror

end Tables

/-! ### Names and texts -/

/-- **Names and texts are in bijection**, whatever texts are interned, up to the largest index. Every call gives
a name. Then the texts are those met so far, each at the place where it was first met, the empty text at the
first; the index of the tables and their texts are inverse to each other, the places in use are those below the
size, and a text that is known changes nothing. The name that a call gave is still the name of its text, and two
calls gave one name exactly if they were given one text. Without an index the same names are given for the same
texts. -/
theorem internEach_bijective (met : List String)
    (within : (initial.texts ++ met).eraseDups.length ≤ maxIndex + 1) :
    let kept := (initial.texts ++ met).eraseDups
    ∃ (given : List Name) (tables : Tables),
      internEach Tables.tryIntern met .initial = .ok (given, tables) ∧
      internEach tryIntern met initial = .ok (given, ⟨kept⟩) ∧
      tables.texts = kept ∧ (∀ text, tables.find? text = find? ⟨kept⟩ text) ∧
      tables.find? "" = some .empty ∧
      (∀ text name, tables.find? text = some name ↔ tables.text? name = some text) ∧
      (∀ name : Name, (∃ text, tables.find? text = some name) ↔ name.index < tables.size) ∧
      (∀ text name, tables.find? text = some name → tables.tryIntern text = .ok (name, tables)) ∧
      List.Forall₂ (fun text name => tables.text? name = some text) met given ∧
      ∀ call ∈ met.zip given, ∀ call' ∈ met.zip given, call.2 = call'.2 ↔ call.1 = call'.1 := by
  intro kept
  have distinct : (initial.meet met).texts.Nodup := nodup_initial_meet met
  have isKept : initial.meet met = ⟨kept⟩ := congrArg Interner.mk (texts_meet (nodup_initial_meet []) met)
  have fits : (initial.meet met).size ≤ maxIndex + 1 := isKept ▸ within
  obtain ⟨given, run, read⟩ := internEach_tryIntern fits
  rw [isKept] at distinct run read
  obtain ⟨tables, stored, mirror⟩ := Tables.mirror_initial.internEach run
  have inverse := mirror.find?_eq_some_iff distinct
  have readBack : List.Forall₂ (fun text name => tables.text? name = some text) met given :=
    read.imp fun text name isText => (mirror.text? name).trans isText
  refine ⟨given, tables, stored, run, mirror.texts, mirror.find?, ?_, inverse, fun name => ?_, ?_, readBack,
    fun call isCall call' isCall' => Tables.name_eq_iff_of_mem_zip inverse readBack isCall isCall'⟩
  · have starts : initial.texts <+: kept := by
      have grows := texts_prefix_meet initial met
      rwa [isKept] at grows
    rw [inverse, mirror.text?]
    exact text?_of_prefix starts rfl
  · have sameSize : tables.size = kept.length := congrArg List.length mirror.texts
    simp only [inverse, mirror.text?, sameSize]
    exact exists_text?_iff
  · intro text name found
    rw [Tables.tryIntern, found]

/-- A new text, a well-known one, and the new text once more. -/
theorem internEach_bijective_repeated :
    let met := ["Foo", "Object", "Foo"]
    (initial.texts ++ met).eraseDups.length ≤ maxIndex + 1 ∧
    ∃ tables, internEach Tables.tryIntern met .initial = .ok ([⟨26⟩, ⟨1⟩, ⟨26⟩], tables) ∧
      tables.texts = initial.texts ++ ["Foo"] ∧ tables.find? "Foo" = some ⟨26⟩ ∧
      tables.tryIntern "Foo" = .ok (⟨26⟩, tables) := by
  intro met
  have within : (initial.texts ++ met).eraseDups.length ≤ maxIndex + 1 := by decide
  obtain ⟨given, tables, stored, run, texts, _, _, inverse, _, known, read, _⟩ := internEach_bijective met within
  have isGiven : given = [⟨26⟩, ⟨1⟩, ⟨26⟩] := (congrArg Prod.fst (Except.ok.inj run)).symm
  have kept : (initial.texts ++ met).eraseDups = initial.texts ++ ["Foo"] := by decide
  subst isGiven
  obtain ⟨isFoo, _⟩ := List.forall₂_cons.1 read
  have found : tables.find? "Foo" = some ⟨26⟩ := (inverse "Foo" ⟨26⟩).2 isFoo
  exact ⟨within, tables, stored, texts.trans kept, found, known "Foo" ⟨26⟩ found⟩

end SignatureAlgebra.Interner
