/-
**Overloads are built hygienically.**

When an overload is built, the type parameters that are taken get fresh names, and a substitution is
merged into the renaming. Fresh names are not interned before, as long as their numbers do not begin again,
so the type parameters stay different from each other and from every variable at hand; and as everything is replaced in one go, what the
substitution puts in place is not renamed again, nor are new type parameters replaced by the
substitution.

* `Session.freshEntries` — the fresh names among the type parameters; `Session.course_renameTaken` — they
  are the names that renaming makes.
* `Session.forall₂_renameTaken`, `nodup_renameTaken` — type parameters, kept and fresh.
* `Substitution.withEntries` — what is put in place of what; `Analysis.instantiate_replaces`.
* `Analysis.instantiate_hygienic` — all of it, at any time of a run.
-/
import Mathlib.Data.List.Perm.Basic
import SignatureAlgebra.Proofs.Analysis.FreshNames
import SignatureAlgebra.Proofs.Analysis.Normality
import SignatureAlgebra.Proofs.Substitution.BoundNames

namespace SignatureAlgebra

namespace Session

/-! ### Kept and fresh type parameters -/

/-- Those entries of type parameters that stand for taken ones. -/
def freshEntries (taken vars entries : List Name) : List Name :=
  ((vars.zip entries).filter fun entry => entry.1 ∈ taken).map Prod.snd

variable {taken vars : List Name} {clashes : Substitution} {s : Session}

/-- **Renaming makes the entries of taken type parameters**, and no other names. -/
theorem course_renameTaken (taken vars : List Name) (clashes : Substitution) (s : Session) :
    Course ∅ s (freshEntries taken vars (renameTaken taken vars clashes s).1.1)
      (renameTaken taken vars clashes s).2 := by
  induction vars generalizing clashes s with
  | nil => exact .quiet rfl rfl
  | cons name rest ih =>
    by_cases clash : name ∈ taken
    · rw [renameTaken_cons_of_mem clash]
      have after := ih (clashes.bind name (.var (freshName name s).1)) (freshName name s).2
      simpa [freshEntries, clash] using (Course.fresh name s).trans after
    · rw [renameTaken_cons_of_not_mem clash]
      simpa [freshEntries, clash] using ih clashes s

theorem mem_freshEntries {entries : List Name} {q v : Name} (paired : (q, v) ∈ vars.zip entries)
    (clash : q ∈ taken) : v ∈ freshEntries taken vars entries :=
  List.mem_map.2 ⟨(q, v), List.mem_filter.2 ⟨paired, by simpa using clash⟩, rfl⟩

/-- **What type parameters are called**: a taken one has a name that was not interned, any other its
own. -/
theorem forall₂_renameTaken (settled : Settled {text | text ∈ s.names.texts} s.nextFresh)
    (known : ∀ v ∈ taken, (s.names.text? v).isSome)
    (few : (renameTaken taken vars clashes s).2.nextFresh ≤ freshNumbers) :
    List.Forall₂ (fun q v => if q ∈ taken then s.names.text? v = none ∧ v ∉ taken else v = q) vars
      (renameTaken taken vars clashes s).1.1 := by
  obtain ⟨length, entry⟩ := List.forall₂_iff_zip.1 (renameTaken_entries taken vars clashes s).2
  refine List.forall₂_iff_zip.2 ⟨length, fun {q v} paired => ?_⟩
  by_cases clash : q ∈ taken
  · rw [if_pos clash]
    have new : s.names.text? v = none :=
      (course_renameTaken taken vars clashes s).text?_eq_none settled few (mem_freshEntries paired clash)
    refine ⟨new, fun isTaken => ?_⟩
    have isKnown := known v isTaken
    rw [new] at isKnown
    cases isKnown
  · have kept := entry paired
    rw [IsEntry, if_neg clash] at kept
    rw [if_neg clash]
    exact kept

/-- No entry is taken; it is new, or one of the type parameters. -/
theorem not_mem_taken_of_mem_entries {entries : List Name}
    (renamed : List.Forall₂
      (fun q v => if q ∈ taken then s.names.text? v = none ∧ v ∉ taken else v = q) vars entries)
    {v : Name} (isEntry : v ∈ entries) : v ∉ taken ∧ (s.names.text? v = none ∨ v ∈ vars) := by
  obtain ⟨length, entry⟩ := List.forall₂_iff_zip.1 renamed
  rw [← List.map_snd_zip (Nat.le_of_eq length.symm)] at isEntry
  obtain ⟨⟨q, v⟩, paired, rfl⟩ := List.mem_map.1 isEntry
  have called := entry paired
  by_cases clash : q ∈ taken
  · rw [if_pos clash] at called
    exact ⟨called.2, Or.inl called.1⟩
  · rw [if_neg clash] at called
    subst called
    exact ⟨clash, Or.inr (List.of_mem_zip paired).1⟩

/-- **Different type parameters stay different.** -/
theorem nodup_renameTaken (settled : Settled {text | text ∈ s.names.texts} s.nextFresh)
    (known : ∀ q ∈ vars, (s.names.text? q).isSome) (distinct : vars.Nodup)
    (few : (renameTaken taken vars clashes s).2.nextFresh ≤ freshNumbers) :
    (renameTaken taken vars clashes s).1.1.Nodup := by
  have course := course_renameTaken taken vars clashes s
  have once := course.nodup (Nat.le_add_left_of_le few)
  obtain ⟨length, entry⟩ := List.forall₂_iff_zip.1 (renameTaken_entries taken vars clashes s).2
  generalize (renameTaken taken vars clashes s).1.1 = entries at course once length entry
  let kept := (vars.zip entries).filter fun entry => !decide (entry.1 ∈ taken)
  have sameNames : kept.map Prod.snd = kept.map Prod.fst := by
    refine List.map_congr_left fun ⟨q, v⟩ isKept => ?_
    obtain ⟨paired, free⟩ := List.mem_filter.1 isKept
    have own := entry paired
    rw [IsEntry, if_neg (by simpa using free)] at own
    exact own
  have keptVars : (kept.map Prod.fst).Sublist vars := by
    have all : (vars.zip entries).map Prod.fst = vars := List.map_fst_zip (Nat.le_of_eq length)
    exact all ▸ List.filter_sublist.map Prod.fst
  have apart : (freshEntries taken vars entries).Disjoint (kept.map Prod.snd) := by
    intro v isFresh isKept
    rw [sameNames] at isKept
    have isKnown := known v (keptVars.subset isKept)
    rw [course.text?_eq_none settled few isFresh] at isKnown
    cases isKnown
  have split : (freshEntries taken vars entries ++ kept.map Prod.snd).Perm entries := by
    rw [freshEntries, ← List.map_append]
    exact ((List.filter_append_perm _ (vars.zip entries)).map Prod.snd).trans
      (.of_eq (List.map_snd_zip (Nat.le_of_eq length.symm)))
  refine split.nodup_iff.1 (once.append ?_ apart)
  exact sameNames ▸ distinct.sublist keptVars

end Session

/-! ### What is put in place -/

/-- **What is put in place when an overload is built**: of a type parameter the variable of its entry,
of everything else what the substitution has. -/
def Substitution.withEntries (s : Substitution) (vars entries : List Name) : Replacement :=
  { s.replacement with
    var := fun q => match (NameMap.ofLists vars entries).find? q with
      | some v => .var v
      | none => s.replacement.var q }

/-- Whether a name is free in a type that a substitution binds or fills in. -/
def Substitution.HasFree (s : Substitution) (name : Name) : Prop :=
  (∃ var t, s.bindings.find? var = some t ∧ name ∈ t.freeVars) ∨
    ∃ word t, s.slot word = some t ∧ name ∈ t.freeVars

/-- A renaming into which a substitution is merged that binds no type parameter. -/
theorem Session.replacement_renameTaken_merge (taken : List Name) {vars : List Name} (s : Session)
    {substitution : Substitution} (unbound : ∀ q ∈ vars, substitution.bindings.find? q = none) :
    ((renameTaken taken vars .empty s).1.2.merge substitution true).replacement =
      substitution.withEntries vars (renameTaken taken vars .empty s).1.1 := by
  have length := (renameTaken_entries taken vars .empty s).2.length_eq
  have ofVars : ((renameTaken taken vars .empty s).1.2.merge substitution true).replacement.var =
      (substitution.withEntries vars (renameTaken taken vars .empty s).1.1).var := funext fun q => by
    refine (var_renameTaken_merge taken vars s substitution q).trans ?_
    by_cases own : q ∈ vars
    · obtain ⟨v, entry⟩ := NameMap.find?_ofLists_of_mem length own
      simp only [Substitution.withEntries, entry, unbound q own, Option.getD_none, Option.getD_some]
    · simp only [Substitution.withEntries, NameMap.find?_ofLists_of_not_mem own, Option.getD_none]
      rfl
  have ofWords : ((renameTaken taken vars .empty s).1.2.merge substitution true).replacement.placeholder =
      substitution.replacement.placeholder := funext fun word => by
    show (((renameTaken taken vars .empty s).1.2.merge substitution true).slot word).getD _ =
      (substitution.slot word).getD _
    rw [Substitution.slot_merge, slot_renameTaken]
    exact congrArg (Option.getD · _) Option.or_none
  exact congrArg₂ (fun var placeholder => (⟨var, placeholder, id, fun _ => id⟩ : Replacement)) ofVars
    ofWords

namespace Analysis

open Session

variable {a : Analysis}

/-- Instantiating makes the entries of taken type parameters, and no other names. -/
theorem course_instantiate (a : Analysis) (signature : DeclaredMethod NodeId) (selfType : Ty)
    (substitution : Substitution) (origin : Option Origin) (s : Session) :
    Course ∅ s
      (freshEntries selfType.freeVars signature.typeParams
        (a.instantiate signature selfType (some substitution) origin s).1.type.typeParams)
      (a.instantiate signature selfType (some substitution) origin s).2 := by
  rw [typeParams_instantiate, ← List.append_nil (freshEntries _ _ _), instantiate_run]
  refine (course_renameTaken selfType.freeVars signature.typeParams .empty s).trans ?_
  cases signature.block <;> exact .quiet rfl rfl

/-- Only renaming uses up numbers. -/
theorem nextFresh_instantiate (a : Analysis) (signature : DeclaredMethod NodeId) (selfType : Ty)
    (substitution : Substitution) (origin : Option Origin) (s : Session) :
    (a.instantiate signature selfType (some substitution) origin s).2.nextFresh =
      (renameTaken selfType.freeVars signature.typeParams .empty s).2.nextFresh := by
  rw [instantiate_run]
  cases signature.block <;> rfl

/-- **An overload is the declared method type with everything replaced in one go**, if the substitution
binds no type parameter. -/
theorem instantiate_replaces (acyclic : a.env.arena.Acyclic) {s : Session} (coherent : s.Coherent a)
    {signature : DeclaredMethod NodeId} (selfType : Ty) {substitution : Substitution}
    (unbound : ∀ q ∈ signature.typeParams, substitution.bindings.find? q = none)
    (origin : Option Origin) :
    let overload := (a.instantiate signature selfType (some substitution) origin s).1
    let entries := overload.type.typeParams
    overload = ⟨{ (a.env.arena.methodType signature).replace
        (substitution.withEntries signature.typeParams entries) with typeParams := entries }, origin⟩ := by
  intro overload entries
  have normal : ∀ t ∈ (a.env.arena.methodType signature).types, t.IsNormal :=
    isNormal_methodType a.env.arena signature
  have replaced : overload = _ := instantiate_eq_apply acyclic coherent signature substitution origin rfl
  rw [MethodType.map_congr fun t isType => Substitution.apply_of_normal _ (normal t isType),
    replacement_renameTaken_merge _ s unbound] at replaced
  rw [show entries = _ from typeParams_instantiate a signature selfType substitution origin s]
  exact replaced

/-- **Overloads are built hygienically.** A run starts with some interned texts and a next number, and
leads to a session at which the texts from the start, and those that others have interned since, do not
stand in the way of the fresh variables to come. Then an overload that is built before the numbers begin again
has one type parameter for each that is declared: the declared one, unless that is free in the type for
`self`, and else a name that was not interned and is not free there either. These new names are all that is
made, and they differ from each other and from every name that is made earlier or later in a run whose
numbers do not come round. If the substitution binds no type parameter, everything is replaced in one go: type
parameters by their entries, all else by the substitution. If all that is free in what it binds and fills in is
free in the type for `self`, none of it falls under the type parameters. -/
theorem instantiate_hygienic (acyclic : a.env.arena.Acyclic) {given : Set String} {names : Interner}
    {nextFresh : Nat} {events : List Event} (regular : a.Regular given (.start names nextFresh) events)
    {s : Session} (reached : a.after (.start names nextFresh) events = s)
    (settled : Settled ({text | text ∈ names.texts} ∪ given) s.nextFresh)
    {signature : DeclaredMethod NodeId} (distinct : signature.typeParams.Nodup) {selfType : Ty}
    {substitution : Option Substitution}
    (known : ∀ v, v ∈ signature.typeParams ∨ v ∈ selfType.freeVars ∨
      (∃ t, (substitution.getD .empty).bindings.find? v = some t) → (s.names.text? v).isSome)
    (origin : Option Origin)
    (few : (a.instantiate signature selfType substitution origin s).2.nextFresh ≤ freshNumbers) :
    let replacing := substitution.getD .empty
    let overload := (a.instantiate signature selfType substitution origin s).1
    let later := (a.instantiate signature selfType substitution origin s).2
    let entries := overload.type.typeParams
    let made := freshEntries selfType.freeVars signature.typeParams entries
    List.Forall₂ (fun q v => if q ∈ selfType.freeVars
        then s.names.text? v = none ∧ v ∉ selfType.freeVars else v = q) signature.typeParams entries ∧
      entries.Nodup ∧
      Course ∅ s made later ∧
      (∀ given' before after final, Course given' (.start names nextFresh) before s →
        Course given' later after final → final.nextFresh ≤ nextFresh + freshNumbers →
          (before ++ made ++ after).Nodup) ∧
      ((∀ q ∈ signature.typeParams, replacing.bindings.find? q = none) →
        overload = ⟨{ (a.env.arena.methodType signature).replace
            (replacing.withEntries signature.typeParams entries) with typeParams := entries }, origin⟩ ∧
        ((∀ v, replacing.HasFree v → v ∈ selfType.freeVars) →
          ∀ v, replacing.Mentions v → v ∉ entries)) := by
  intro replacing
  have asSome : a.instantiate signature selfType substitution origin =
      a.instantiate signature selfType (some replacing) origin := by
    cases substitution with
    | none => exact instantiate_none signature selfType origin
    | some s => rfl
  rw [asSome] at few ⊢
  intro overload later entries made
  have coherent : s.Coherent a :=
    reached ▸ (idle_after acyclic (idle_start a names nextFresh) events).coherent
  obtain ⟨_, course⟩ := course_after regular
  rw [reached] at course
  have now : Settled {text | text ∈ s.names.texts} s.nextFresh := course.settled settled
  have renames : entries = (renameTaken selfType.freeVars signature.typeParams .empty s).1.1 :=
    typeParams_instantiate a signature selfType replacing origin s
  have few' : (renameTaken selfType.freeVars signature.typeParams .empty s).2.nextFresh ≤ freshNumbers :=
    nextFresh_instantiate a signature selfType replacing origin s ▸ few
  have called := forall₂_renameTaken now (fun v isTaken => known v (.inr (.inl isTaken))) few'
  rw [← renames] at called
  have making : Course ∅ s made later := course_instantiate a signature selfType replacing origin s
  refine ⟨called, ?_, making, fun _ before after final earlier rest few => ?_, fun unbound => ⟨?_, ?_⟩⟩
  · rw [renames]
    exact nodup_renameTaken now (fun q own => known q (.inl own)) distinct few'
  · exact ((earlier.trans (making.mono (Set.empty_subset _))).trans rest).nodup few
  · exact instantiate_replaces acyclic coherent selfType unbound origin
  · intro within v mentioned isEntry
    obtain ⟨free, newOrOwn⟩ := not_mem_taken_of_mem_entries called isEntry
    rcases mentioned with ⟨t, bound⟩ | occurs
    · rcases newOrOwn with new | own
      · have isKnown := known v (.inr (.inr ⟨t, bound⟩))
        rw [new] at isKnown
        cases isKnown
      · cases (unbound v own).symm.trans bound
    · exact free (within v occurs)

namespace Boxes

/-- The interface of a box of `T` is asked for, which makes `T(1)`; then others intern `T(2)`, and use up
its number. -/
def events : List Event :=
  [.ask (.interface (.instanceOf box [.var varT]) false),
    .elsewhere ⟨names.texts ++ ["T(1)", "T(2)"]⟩ 3]

/-- What is reached then. -/
def moment : Session := (declaring varE varT).after (.start names 1) events

theorem regular_events : (declaring varE varT).Regular {"T(2)"} (.start names 1) events := by
  let asked := (declaring varE varT).step (.start names 1)
    (.ask (.interface (.instanceOf box [.var varT]) false))
  let interned : Session := { asked with names := (asked.names.intern "T(2)").2 }
  have interning : Course {"T(2)"} asked [] interned := .interned (Set.mem_singleton _) asked
  have skipping : Course {"T(2)"} interned [] { interned with nextFresh := interned.nextFresh + 1 } :=
    .skipped 1 interned
  have elsewhere : Course {"T(2)"} asked ([] ++ ([] ++ []))
      ((declaring varE varT).step asked (.elsewhere ⟨names.texts ++ ["T(1)", "T(2)"]⟩ 3)) :=
    interning.trans (skipping.trans (.quiet rfl rfl))
  exact .ask _ (.elsewhere elsewhere (.nil _))

theorem settled_moment : Settled ({text | text ∈ names.texts} ∪ {"T(2)"}) moment.nextFresh := by
  have plain : ∀ text ∈ names.texts, text.toList.getLast? ≠ some ')' := by decide
  rintro text (isName | rfl) base number spelled
  · exact absurd (spelled ▸ getLast?_freshText base number) (plain text isName)
  · have second : freshText "T" 2 = freshText base number := spelled
    exact freshText_number second ▸ (by decide : 2 < 3)

/-- What is put in place of `E` is the `T` of the box. -/
def elementIsT : Substitution := Substitution.empty.bind varE (.var varT)

theorem eq_of_elementIsT {v : Name} {t : Ty} (bound : elementIsT.bindings.find? v = some t) :
    v = varE ∧ t = .var varT := by
  rw [elementIsT, Substitution.find?_bind_empty] at bound
  by_cases same : v = varE
  · rw [if_pos same] at bound
    exact ⟨same, (Option.some.inj bound).symm⟩
  · rw [if_neg same] at bound
    cases bound

theorem known_moment (v : Name) (atHand : v ∈ (mapping varT).signature.typeParams ∨
    v ∈ (Ty.instanceOf box [.var varT]).freeVars ∨
      ∃ t, ((some elementIsT).getD .empty).bindings.find? v = some t) :
    (moment.names.text? v).isSome := by
  rcases atHand with own | free | ⟨t, bound⟩
  · obtain rfl : v = varT := List.mem_singleton.1 own
    rfl
  · obtain rfl : v = varT := List.mem_singleton.1 free
    rfl
  · obtain ⟨rfl, _⟩ := eq_of_elementIsT bound
    rfl

end Boxes

open Boxes

/-- The next overload that is built on a box of `T` gets the type parameter `T(3)`, and what is put in
place of `E` is still the `T` of the box. -/
theorem instantiate_hygienic_box :
    let analysis := declaring varE varT
    let signature := (mapping varT).signature
    let receiver := Ty.instanceOf box [.var varT]
    let overload : Overload := ⟨⟨[⟨32⟩], .positional [.var varT], none, .var ⟨32⟩⟩, none⟩
    analysis.env.arena.Acyclic ∧ analysis.Regular {"T(2)"} (.start names 1) events ∧
      Settled ({text | text ∈ names.texts} ∪ {"T(2)"}) moment.nextFresh ∧
      signature.typeParams.Nodup ∧
      (analysis.instantiate signature receiver (some elementIsT) none moment).2.nextFresh ≤ freshNumbers ∧
      (analysis.instantiate signature receiver (some elementIsT) none moment).1 = overload ∧
      moment.names.text? ⟨32⟩ = none ∧ ∀ v, elementIsT.Mentions v → v ∉ overload.type.typeParams := by
  intro analysis signature receiver overload
  have computed : (analysis.instantiate signature receiver (some elementIsT) none moment).1 =
      overload := by rfl
  have counted : (analysis.instantiate signature receiver (some elementIsT) none moment).2.nextFresh = 4 := by
    rfl
  have few : (analysis.instantiate signature receiver (some elementIsT) none moment).2.nextFresh ≤ freshNumbers :=
    counted ▸ by decide
  have reached : analysis.after (.start names 1) events = moment := rfl
  obtain ⟨called, _, _, _, replaced⟩ := instantiate_hygienic (acyclic varE varT) regular_events reached
    settled_moment (List.nodup_singleton varT) known_moment none few
  have within : ∀ v, elementIsT.HasFree v → v ∈ receiver.freeVars := by
    rintro v (⟨var, t, bound, occurs⟩ | ⟨word, t, isFilled, _⟩)
    · obtain ⟨_, rfl⟩ := eq_of_elementIsT bound
      exact occurs
    · cases isFilled
  have clear := (replaced (by decide)).2 within
  rw [computed] at called clear
  exact ⟨acyclic varE varT, regular_events, settled_moment, List.nodup_singleton varT, few, computed,
    (List.forall₂_cons.1 called).1.1, clear⟩

end Analysis

end SignatureAlgebra
