/-
**Names of fresh variables.**

A fresh variable is spelled like an old one with a number behind it, as in `T(3)`, and numbers are used up
one after the other, until they begin again. A number can be read off the text again, so no two fresh
variables have one text before that, and a fresh variable is new unless its text was interned by others
before its turn came.

* `freshText`, `freshText_number` — how fresh variables are spelled.
* `Session.Course` — what happens to the names, questions and others taken together;
  `Course.text_cases` says what is interned, and `Course.nodup` that no name is made twice.
* `Settled`, `Course.settled` — no text stands in the way of a fresh variable to come.
* `Analysis.course_answer`, `course_after` — questions only make fresh names, and so do whole runs.
-/
import Mathlib.Data.List.Nodup
import Mathlib.Data.Set.Basic
import SignatureAlgebra.Proofs.Analysis.History
import SignatureAlgebra.Proofs.Name.Interning

namespace SignatureAlgebra

/-- How a fresh variable is spelled: the text it is made of, and its number behind that. -/
def freshText (base : String) (number : Nat) : String := base ++ "(" ++ toString number ++ ")"

/-- The number of a fresh variable can be read off its text, up to the last bracket that opens. -/
theorem takeWhile_freshText (base : String) (number : Nat) :
    ((freshText base number).toList.reverse.drop 1).takeWhile Char.isDigit =
      (Nat.toDigits 10 number).reverse := by
  have digits : ∀ c ∈ (Nat.toDigits 10 number).reverse, c.isDigit = true := fun c isDigit =>
    Nat.isDigit_of_mem_toDigits (by decide) (by decide) (List.mem_reverse.1 isDigit)
  have spelled : (freshText base number).toList.reverse.drop 1 =
      (Nat.toDigits 10 number).reverse ++ '(' :: base.toList.reverse := by
    simp [freshText]
  rw [spelled, List.takeWhile_append_of_pos digits, List.takeWhile_cons_of_neg (by decide),
    List.append_nil]

theorem freshText_number {base base' : String} {number number' : Nat}
    (same : freshText base number = freshText base' number') : number = number' := by
  have reversed : (Nat.toDigits 10 number).reverse = (Nat.toDigits 10 number').reverse := by
    rw [← takeWhile_freshText base, same, takeWhile_freshText]
  calc
    number = Nat.ofDigitChars 10 (Nat.toDigits 10 number) 0 := Nat.ofDigitChars_ten_toDigits.symm
    _ = Nat.ofDigitChars 10 (Nat.toDigits 10 number') 0 := by rw [List.reverse_inj.1 reversed]
    _ = number' := Nat.ofDigitChars_ten_toDigits

theorem getLast?_freshText (base : String) (number : Nat) :
    (freshText base number).toList.getLast? = some ')' := by
  simp only [freshText, String.toList_append]
  exact List.getLast?_concat

/-- **No fresh variable to come is spelled like one of the texts**, before the numbers begin again. -/
def Settled (texts : Set String) (nextFresh : Nat) : Prop :=
  ∀ text ∈ texts, ∀ base number, text = freshText base number → number < nextFresh

namespace Session

/-- **What happens to the names**, and which fresh names are made on the way: texts that are given are
interned by others, numbers are used up for other names, and fresh names are made. -/
inductive Course (given : Set String) : Session → List Name → Session → Prop where
  | quiet {s later : Session} (names : later.names = s.names)
    (nextFresh : later.nextFresh = s.nextFresh) : Course given s [] later
  | fresh (base : Name) (s : Session) : Course given s [(freshName base s).1] (freshName base s).2
  | interned {text : String} (isGiven : text ∈ given) (s : Session) :
    Course given s [] { s with names := (s.names.intern text).2 }
  | skipped (count : Nat) (s : Session) :
    Course given s [] { s with nextFresh := s.nextFresh + count }
  | trans {s between later : Session} {made made' : List Name} (before : Course given s made between)
    (after : Course given between made' later) : Course given s (made ++ made') later

namespace Course

variable {given : Set String} {s later : Session} {made : List Name}

theorem texts_prefix (course : Course given s made later) : s.names.texts <+: later.names.texts := by
  induction course with
  | quiet names => exact names ▸ List.prefix_rfl
  | fresh base s => exact (grows_freshName base s).texts
  | interned _ s => exact Interner.texts_prefix_intern s.names _
  | skipped => exact List.prefix_rfl
  | trans _ _ before after => exact before.trans after

theorem nextFresh_le (course : Course given s made later) : s.nextFresh ≤ later.nextFresh := by
  induction course with
  | quiet _ nextFresh => exact Nat.le_of_eq nextFresh.symm
  | fresh base s => exact Nat.le_succ _
  | interned => exact Nat.le_refl _
  | skipped => exact Nat.le_add_right _ _
  | trans _ _ before after => exact Nat.le_trans before after

/-- **The texts at the end**: those at the start, those that are given, and fresh ones with numbers that
are used up. -/
theorem text_cases (course : Course given s made later) {text : String}
    (isText : text ∈ later.names.texts) :
    text ∈ s.names.texts ∨ text ∈ given ∨
      ∃ base number, text = freshText base number ∧ number < later.nextFresh := by
  induction course with
  | quiet names => exact Or.inl (names ▸ isText)
  | fresh base s =>
    rcases Interner.mem_texts_intern isText with old | rfl
    · exact Or.inl old
    · exact Or.inr (Or.inr ⟨_, _, rfl, Nat.lt_succ_of_le (Nat.mod_le _ _)⟩)
  | interned isGiven s =>
    rcases Interner.mem_texts_intern isText with old | rfl
    · exact Or.inl old
    · exact Or.inr (Or.inl isGiven)
  | skipped => exact Or.inl isText
  | trans _ second before after =>
    rcases after isText with between | rest
    · rcases before between with old | isGiven | ⟨base, number, rfl, used⟩
      · exact Or.inl old
      · exact Or.inr (Or.inl isGiven)
      · exact Or.inr (Or.inr ⟨base, number, rfl, Nat.lt_of_lt_of_le used second.nextFresh_le⟩)
    · exact Or.inr rest

/-- **Each name that is made** is one of a text with a number used up on the way. -/
theorem text?_of_mem (course : Course given s made later) {name : Name} (isMade : name ∈ made) :
    ∃ base number, later.names.text? name = some (freshText base (number % freshNumbers)) ∧
      s.nextFresh ≤ number ∧ number < later.nextFresh := by
  induction course with
  | quiet | interned | skipped => cases isMade
  | fresh base s =>
    obtain rfl := List.mem_singleton.1 isMade
    exact ⟨_, _, Interner.text?_intern _ _, Nat.le_refl _, Nat.lt_succ_self _⟩
  | trans first second before after =>
    rcases List.mem_append.1 isMade with early | late
    · obtain ⟨base, number, known, least, used⟩ := before early
      exact ⟨base, number, Interner.text?_of_prefix second.texts_prefix known, least,
        Nat.lt_of_lt_of_le used second.nextFresh_le⟩
    · obtain ⟨base, number, known, least, used⟩ := after late
      exact ⟨base, number, known, Nat.le_trans first.nextFresh_le least, used⟩

/-- **No name is made twice**, unless the numbers come round. -/
theorem nodup (course : Course given s made later) (few : later.nextFresh ≤ s.nextFresh + freshNumbers) :
    made.Nodup := by
  induction course with
  | quiet | interned | skipped => exact List.nodup_nil
  | fresh => exact List.nodup_singleton _
  | trans first second before after =>
    have onwards := first.nextFresh_le
    have onwards' := second.nextFresh_le
    refine (before (Nat.le_trans onwards' few)).append (after (by omega)) fun name early late => ?_
    -- An early number is used up when the later ones are taken, so the texts are different.
    obtain ⟨base, number, known, least, used⟩ := first.text?_of_mem early
    obtain ⟨base', number', known', least', used'⟩ := second.text?_of_mem late
    have same : freshText base (number % freshNumbers) = freshText base' (number' % freshNumbers) :=
      Option.some.inj ((Interner.text?_of_prefix second.texts_prefix known).symm.trans known')
    have cameRound : number % freshNumbers = number' % freshNumbers := freshText_number same
    unfold freshNumbers at few cameRound
    omega

/-- What others may intern is more than they do. -/
theorem mono {given' : Set String} (course : Course given s made later) (more : given ⊆ given') :
    Course given' s made later := by
  induction course with
  | quiet names nextFresh => exact .quiet names nextFresh
  | fresh base s => exact .fresh base s
  | interned isGiven s => exact .interned (more isGiven) s
  | skipped count s => exact .skipped count s
  | trans _ _ before after => exact .trans before after

/-- **If the texts at the start and those that are given are settled at the end, then all are.** -/
theorem settled (course : Course given s made later)
    (settled : Settled ({text | text ∈ s.names.texts} ∪ given) later.nextFresh) :
    Settled {text | text ∈ later.names.texts} later.nextFresh := by
  intro text isText base number spelled
  rcases course.text_cases isText with old | isGiven | ⟨base', number', spelled', used⟩
  · exact settled text (Or.inl old) base number spelled
  · exact settled text (Or.inr isGiven) base number spelled
  · rw [freshText_number (spelled.symm.trans spelled')]
    exact used

/-- **A name that is made is new**, if no text stands in its way and the numbers do not begin again. -/
theorem text?_eq_none (course : Course given s made later)
    (settled : Settled {text | text ∈ s.names.texts} s.nextFresh) (few : later.nextFresh ≤ freshNumbers)
    {name : Name} (isMade : name ∈ made) : s.names.text? name = none := by
  by_contra known
  obtain ⟨text, known⟩ := Option.ne_none_iff_exists'.1 known
  obtain ⟨base, number, isText, least, taken⟩ := course.text?_of_mem isMade
  rw [Nat.mod_eq_of_lt (Nat.lt_of_lt_of_le taken few)] at isText
  have spelled : text = freshText base number :=
    Option.some.inj ((Interner.text?_of_prefix course.texts_prefix known).symm.trans isText)
  have used : number < s.nextFresh :=
    settled text (Interner.mem_texts_of_text? known) base number spelled
  exact absurd used (Nat.not_lt.2 least)

end Course

/-- Makes fresh names, and changes the names in no other way. -/
def OnlyFresh {α : Type} (action : StateM Session α) : Prop :=
  ∀ s, ∃ made, Course ∅ s made (action s).2

end Session

namespace Analysis

open Session

variable {a : Analysis}

/-! ### Questions and runs -/

theorem onlyFresh_unfold (a : Analysis) (name : TypeName) : OnlyFresh (a.unfold name).run := by
  intro s
  refine ⟨[], ?_⟩
  show Course ∅ s [] (a.unfold name s).2
  rw [unfold_run]
  cases s.unfolded.lookup name with
  | some body => exact .quiet rfl rfl
  | none => cases a.env.aliasBody name <;> exact .quiet rfl rfl

/-- **No question changes the names but by making fresh ones.** -/
theorem pervades_onlyFresh (a : Analysis) : a.Pervades fun _ action => OnlyFresh action where
  pure _ _ := ⟨[], .quiet rfl rfl⟩
  bind {_ _ x _} first next s := by
    obtain ⟨made, before⟩ := first s
    obtain ⟨made', after⟩ := next (x s).1 (x s).2
    exact ⟨made ++ made', before.trans after⟩
  freshName base s := ⟨_, .fresh base s⟩
  toTy _ _ := ⟨[], .quiet rfl rfl⟩
  params _ _ := ⟨[], .quiet rfl rfl⟩
  unfold := onlyFresh_unfold a
  ofReceivers each s := each s.receivers s
  computing t _ inner s := by
    obtain ⟨made, during⟩ := inner { s with receivers := t :: s.receivers }
    have before : Course ∅ s [] { s with receivers := t :: s.receivers } := .quiet rfl rfl
    exact ⟨_, (before.trans during).trans (.quiet rfl rfl)⟩

theorem course_answer (a : Analysis) (question : Query) (s : Session) :
    ∃ made, Course ∅ s made (a.answer question s).2 := (pervades_onlyFresh a).answer question s

/-- Events between which others intern given texts, use up numbers and make fresh names, and do nothing
else to the names. -/
inductive Regular (a : Analysis) (given : Set String) : Session → List Event → Prop where
  | nil (s : Session) : Regular a given s []
  | ask {s : Session} {events : List Event} (question : Query)
    (rest : Regular a given (a.step s (.ask question)) events) :
    Regular a given s (.ask question :: events)
  | elsewhere {s : Session} {events : List Event} {names : Interner} {nextFresh : Nat} {made : List Name}
    (course : Course given s made (a.step s (.elsewhere names nextFresh)))
    (rest : Regular a given (a.step s (.elsewhere names nextFresh)) events) :
    Regular a given s (.elsewhere names nextFresh :: events)

/-- **All events** together are a course of the names. -/
theorem course_after {given : Set String} {s : Session} {events : List Event}
    (regular : a.Regular given s events) : ∃ made, Course given s made (a.after s events) := by
  induction regular with
  | nil s => exact ⟨[], .quiet rfl rfl⟩
  | ask question _ ih =>
    obtain ⟨made, before⟩ := a.course_answer question _
    obtain ⟨made', after⟩ := ih
    exact ⟨made ++ made', (before.mono (Set.empty_subset _)).trans after⟩
  | elsewhere course _ ih =>
    obtain ⟨made, after⟩ := ih
    exact ⟨_, course.trans after⟩

end Analysis

end SignatureAlgebra
