/-
**What following aliases comes to.**

Following aliases goes from an alias to its body and from a union to its members, from left to right and
deepest first, and keeps the aliases on the way. What is met in this order at the ends of the ways are
types that are neither aliases nor unions, aliases that are not declared, and aliases that are on the way
already. The answer is the union of what is met if all of it are types, and otherwise the first refusal.

* `Environment.Expansion` — the steps; `Environment.Meets` — what is met.
* `Environment.Meets.unique`, `Analysis.expandTo_meets` — one list is met, and it gives the answer.
* `Environment.Expandable`, `Meets.expandable` — lists without refusals; `Environment.Tells`,
  `Meets.tells` — what a refusal tells.
* `Environment.meets_leaves` — a type that is expanded already.
* `Analysis.expandDeep_exact` — the statement.
-/
import SignatureAlgebra.Proofs.Analysis.Expanding
import SignatureAlgebra.Proofs.Analysis.History
import SignatureAlgebra.Proofs.Ty.Composition

namespace SignatureAlgebra

/-! ### Types that stay -/

namespace Ty

/-- A type that following aliases leaves as it is: neither an alias nor a union. -/
def IsPlain (t : Ty) : Prop := t.isAlias = false ∧ t.isUnion = false

theorem isPlain_or (t : Ty) :
    t.IsPlain ∨ t.IsAlias ∨ ∃ members, t = ⟨.compound .union members⟩ := by
  obtain ⟨s⟩ := t
  cases s with
  | applied head name args =>
    cases head with
    | ofAlias => exact Or.inr (Or.inl ⟨name, args, rfl⟩)
    | _ => exact Or.inl ⟨rfl, rfl⟩
  | compound connective members =>
    cases connective with
    | union => exact Or.inr (Or.inr ⟨members, rfl⟩)
    | intersection => exact Or.inl ⟨rfl, rfl⟩
  | _ => exact Or.inl ⟨rfl, rfl⟩

variable {t : Ty}

theorem IsPlain.not_isAlias (plain : t.IsPlain) : ¬ t.IsAlias := by
  rintro ⟨name, args, rfl⟩
  cases plain.1

theorem IsPlain.ne_union (plain : t.IsPlain) (members : List Ty) : t ≠ ⟨.compound .union members⟩ := by
  rintro rfl
  cases plain.2

theorem IsPlain.leaves (plain : t.IsPlain) : t.leaves .union = [t] := leaves_of_ne .union plain.ne_union

theorem alike_leaves (c : Connective) (t : Ty) : Alike c [t] (t.leaves c) := by
  intro members
  have flat : (t.leaves c).flatMap (leaves c) = t.leaves c := by
    rw [List.flatMap_congr fun leaf isLeaf =>
      leaves_of_not_isCompound (not_isCompound_of_mem_leaves t isLeaf)]
    simp
  rw [addMembers_eq, addMembers_eq, List.flatMap_singleton, flat]

/-- One type that is no union. -/
theorem IsPlain.union_singleton (plain : t.IsPlain) : union [t] = t := by
  obtain ⟨s⟩ := t
  cases s with
  | base word => cases word <;> rfl
  | compound connective members =>
    cases connective with
    | union => exact absurd rfl (plain.ne_union members)
    | intersection => rfl
  | _ => rfl

end Ty

/-! ### What is met -/

namespace Environment

/-- **The steps of following aliases**: from a declared alias to its body, whatever its arguments are, and
from a union to its members. -/
inductive Expansion (env : Environment) : Ty → Ty → Prop where
  | ofAlias {name : TypeName} {args : List Ty} {body : Ty} (declared : env.aliasType name = .ok body) :
    Expansion env (.aliasOf name args) body
  | ofMember {members : List Ty} {t : Ty} (isMember : t ∈ members) :
    Expansion env ⟨.compound .union members⟩ t

/-- **What is met from some types on**, one after the other and each followed to the end before the next
one, with some aliases on the way. -/
inductive Meets (env : Environment) : List Ty → List Ty → List (Except Error Ty) → Prop where
  | nil {path : List Ty} : Meets env path [] []
  | plain {path rest : List Ty} {met : List (Except Error Ty)} {t : Ty} (isPlain : t.IsPlain)
    (later : Meets env path rest met) : Meets env path (t :: rest) (.ok t :: met)
  | again {path rest : List Ty} {met : List (Except Error Ty)} {name : TypeName} {args : List Ty}
    (onWay : .aliasOf name args ∈ path) (later : Meets env path rest met) :
    Meets env path (.aliasOf name args :: rest)
      (.error (.recursiveAlias (.aliasOf name args)) :: met)
  | unknown {path rest : List Ty} {met : List (Except Error Ty)} {name : TypeName} {args : List Ty}
    (isNew : .aliasOf name args ∉ path) (undeclared : env.aliases.lookup name = none)
    (later : Meets env path rest met) :
    Meets env path (.aliasOf name args :: rest) (.error (.unknownAlias name) :: met)
  | body {path rest : List Ty} {inner met : List (Except Error Ty)} {name : TypeName} {args : List Ty}
    {body : Ty} (isNew : .aliasOf name args ∉ path) (declared : env.aliasType name = .ok body)
    (inside : Meets env (.aliasOf name args :: path) [body] inner) (later : Meets env path rest met) :
    Meets env path (.aliasOf name args :: rest) (inner ++ met)
  | members {path members rest : List Ty} {inner met : List (Except Error Ty)}
    (inside : Meets env path members inner) (later : Meets env path rest met) :
    Meets env path (⟨.compound .union members⟩ :: rest) (inner ++ met)

variable {env : Environment} {path ts us : List Ty} {met met' : List (Except Error Ty)} {name : TypeName}
  {t : Ty}

theorem aliasType_of_lookup_eq_none (undeclared : env.aliases.lookup name = none) :
    env.aliasType name = .error (.unknownAlias name) := by
  rw [aliasType, aliasBody, undeclared]
  rfl

theorem lookup_eq_none_of_aliasType {e : Error} (refused : env.aliasType name = .error e) :
    env.aliases.lookup name = none ∧ e = .unknownAlias name := by
  unfold aliasType aliasBody at refused
  cases found : env.aliases.lookup name with
  | some id => rw [found] at refused; cases refused
  | none =>
    rw [found] at refused
    exact ⟨rfl, (Except.error.inj refused).symm⟩

/-- **One list is met.** -/
theorem Meets.unique (meets : env.Meets path ts met) (meets' : env.Meets path ts met') : met = met' := by
  induction meets generalizing met' with
  | nil => cases meets'; rfl
  | plain isPlain _ ih =>
    cases meets' with
    | plain _ later => rw [ih later]
    | members => exact absurd rfl (isPlain.ne_union _)
    | _ => exact absurd ⟨_, _, rfl⟩ isPlain.not_isAlias
  | again onWay _ ih =>
    cases meets' with
    | plain isPlain => exact absurd ⟨_, _, rfl⟩ isPlain.not_isAlias
    | again _ later => rw [ih later]
    | unknown isNew => exact absurd onWay isNew
    | body isNew => exact absurd onWay isNew
  | unknown isNew undeclared _ ih =>
    cases meets' with
    | plain isPlain => exact absurd ⟨_, _, rfl⟩ isPlain.not_isAlias
    | again onWay => exact absurd onWay isNew
    | unknown _ _ later => rw [ih later]
    | body _ declared =>
      cases declared.symm.trans (aliasType_of_lookup_eq_none undeclared)
  | body isNew declared _ _ ihInside ih =>
    cases meets' with
    | plain isPlain => exact absurd ⟨_, _, rfl⟩ isPlain.not_isAlias
    | again onWay => exact absurd onWay isNew
    | unknown _ undeclared =>
      cases declared.symm.trans (aliasType_of_lookup_eq_none undeclared)
    | body _ declared' inside' later =>
      obtain rfl := Except.ok.inj (declared.symm.trans declared')
      rw [ihInside inside', ih later]
  | members _ _ ihInside ih =>
    cases meets' with
    | plain isPlain => exact absurd rfl (isPlain.ne_union _)
    | members inside' later => rw [ihInside inside', ih later]

/-- What is met from two lists of types. -/
theorem Meets.append (meets : env.Meets path ts met) (meets' : env.Meets path us met') :
    env.Meets path (ts ++ us) (met ++ met') := by
  induction meets with
  | nil => exact meets'
  | plain isPlain _ ih => exact .plain isPlain (ih meets')
  | again onWay _ ih => exact .again onWay (ih meets')
  | unknown isNew undeclared _ ih => exact .unknown isNew undeclared (ih meets')
  | body isNew declared inside _ _ ih =>
    rw [List.append_assoc]
    exact .body isNew declared inside (ih meets')
  | members inside _ _ ih =>
    rw [List.append_assoc]
    exact .members inside (ih meets')

/-- **Which aliases are on the way** matters for those only that are reached. -/
theorem Meets.congr_path (meets : env.Meets path ts met) {path' : List Ty}
    (same : ∀ t ∈ ts, ∀ u, Relation.ReflTransGen env.Expansion t u → (u ∈ path ↔ u ∈ path')) :
    env.Meets path' ts met := by
  induction meets generalizing path' with
  | nil => exact .nil
  | plain isPlain _ ih => exact .plain isPlain (ih (List.forall_mem_cons.1 same).2)
  | again onWay _ ih =>
    obtain ⟨here, later⟩ := List.forall_mem_cons.1 same
    exact .again ((here _ Relation.ReflTransGen.refl).1 onWay) (ih later)
  | unknown isNew undeclared _ ih =>
    obtain ⟨here, later⟩ := List.forall_mem_cons.1 same
    exact .unknown (fun onWay => isNew ((here _ Relation.ReflTransGen.refl).2 onWay)) undeclared (ih later)
  | body isNew declared _ _ ihInside ih =>
    obtain ⟨here, later⟩ := List.forall_mem_cons.1 same
    refine .body (fun onWay => isNew ((here _ Relation.ReflTransGen.refl).2 onWay)) declared
      (ihInside fun t isBody u reached => ?_) (ih later)
    obtain rfl := List.mem_singleton.1 isBody
    rw [List.mem_cons, List.mem_cons, here u (Relation.ReflTransGen.head (.ofAlias declared) reached)]
  | members _ _ ihInside ih =>
    obtain ⟨here, later⟩ := List.forall_mem_cons.1 same
    exact .members (ihInside fun t isMember u reached =>
      here u (Relation.ReflTransGen.head (.ofMember isMember) reached)) (ih later)

/-- The types that are met are neither aliases nor unions. -/
theorem Meets.isPlain (meets : env.Meets path ts met) (isMet : .ok t ∈ met) : t.IsPlain := by
  induction meets with
  | nil => cases isMet
  | plain isPlain _ ih =>
    rcases List.mem_cons.1 isMet with here | later
    · exact Except.ok.inj here ▸ isPlain
    · exact ih later
  | again _ _ ih | unknown _ _ _ ih =>
    rcases List.mem_cons.1 isMet with here | later
    · cases here
    · exact ih later
  | body _ _ _ _ ihInside ih | members _ _ ihInside ih =>
    exact (List.mem_append.1 isMet).elim ihInside ih

/-- **When a type can be expanded**: every alias that is reached is declared, and none reaches itself. -/
structure Expandable (env : Environment) (t : Ty) : Prop where
  declared : ∀ name args, Relation.ReflTransGen env.Expansion t (.aliasOf name args) →
    ∃ body, env.aliasType name = .ok body
  straight : ∀ u, Relation.ReflTransGen env.Expansion t u → ¬ Relation.TransGen env.Expansion u u

/-- One step. -/
theorem Expandable.of_steps
    (known : ∀ name args, t = .aliasOf name args → ∃ body, env.aliasType name = .ok body)
    (each : ∀ u, env.Expansion t u → env.Expandable u) : env.Expandable t where
  declared name args reached := by
    rcases Relation.ReflTransGen.cases_head reached with same | ⟨u, step, further⟩
    · exact known name args same
    · exact (each u step).declared name args further
  straight u reached circle := by
    rcases Relation.ReflTransGen.cases_head reached with rfl | ⟨v, step, further⟩
    · obtain ⟨v, step, back⟩ := Relation.TransGen.head'_iff.1 circle
      exact (each v step).straight v Relation.ReflTransGen.refl (Relation.TransGen.tail' back step)
    · exact (each v step).straight u further circle

/-- **A list without refusals** is met from types that can be expanded. -/
theorem Meets.expandable (meets : env.Meets path ts met) (unrefused : ∀ e, .error e ∉ met) :
    ∀ t ∈ ts, env.Expandable t := by
  induction meets with
  | nil => nofun
  | plain isPlain _ ih =>
    refine List.forall_mem_cons.2 ⟨?_, ih fun e isMet => unrefused e (List.mem_cons_of_mem _ isMet)⟩
    refine .of_steps (fun name args same => absurd ⟨name, args, same⟩ isPlain.not_isAlias) ?_
    rintro u (declared | isMember)
    · exact absurd ⟨_, _, rfl⟩ isPlain.not_isAlias
    · exact absurd rfl (isPlain.ne_union _)
  | again => exact absurd List.mem_cons_self (unrefused _)
  | unknown => exact absurd List.mem_cons_self (unrefused _)
  | body _ declared _ _ ihInside ih =>
    refine List.forall_mem_cons.2 ⟨?_, ih fun e isMet => unrefused e (List.mem_append_right _ isMet)⟩
    have inside := ihInside (fun e isMet => unrefused e (List.mem_append_left _ isMet)) _
      (List.mem_singleton.2 rfl)
    refine .of_steps (fun name args same => ?_) fun u step => ?_
    · obtain rfl := (Shape.applied.inj (Ty.node.inj same)).2.1
      exact ⟨_, declared⟩
    · cases step with
      | ofAlias declared' => exact Except.ok.inj (declared.symm.trans declared') ▸ inside
  | members _ _ ihInside ih =>
    refine List.forall_mem_cons.2 ⟨?_, ih fun e isMet => unrefused e (List.mem_append_right _ isMet)⟩
    refine .of_steps (fun name args same => nomatch same) fun u step => ?_
    cases step with
    | ofMember isMember =>
      exact ihInside (fun e isMet => unrefused e (List.mem_append_left _ isMet)) u isMember

/-- **What a refusal tells of a type**: an alias that is not declared is reached, or one that reaches
itself. -/
def Tells (env : Environment) (t : Ty) (e : Error) : Prop :=
  ∃ name args, Relation.ReflTransGen env.Expansion t (.aliasOf name args) ∧
    ((env.aliases.lookup name = none ∧ e = .unknownAlias name) ∨
      (Relation.TransGen env.Expansion (.aliasOf name args) (.aliasOf name args) ∧
        e = .recursiveAlias (.aliasOf name args)))

theorem Tells.head {u : Ty} {e : Error} (step : env.Expansion t u) (tells : env.Tells u e) :
    env.Tells t e := by
  obtain ⟨name, args, reached, reason⟩ := tells
  exact ⟨name, args, Relation.ReflTransGen.head step reached, reason⟩

/-- **Every refusal tells of a type that it was met from**, if the aliases on the way lead to these
types. -/
theorem Meets.tells (meets : env.Meets path ts met)
    (leads : ∀ t ∈ ts, ∀ p ∈ path, Relation.TransGen env.Expansion p t) {e : Error}
    (isMet : .error e ∈ met) : ∃ t ∈ ts, env.Tells t e := by
  induction meets with
  | nil => cases isMet
  | plain _ _ ih =>
    rw [List.exists_mem_cons_iff]
    obtain ⟨_, later⟩ := List.forall_mem_cons.1 leads
    exact Or.inr (ih later (by simpa using isMet))
  | again onWay _ ih =>
    rw [List.exists_mem_cons_iff]
    obtain ⟨here, later⟩ := List.forall_mem_cons.1 leads
    rcases List.mem_cons.1 isMet with same | isMetLater
    · exact Or.inl ⟨_, _, Relation.ReflTransGen.refl, Or.inr ⟨here _ onWay, Except.error.inj same⟩⟩
    · exact Or.inr (ih later isMetLater)
  | unknown _ undeclared _ ih =>
    rw [List.exists_mem_cons_iff]
    obtain ⟨_, later⟩ := List.forall_mem_cons.1 leads
    rcases List.mem_cons.1 isMet with same | isMetLater
    · exact Or.inl ⟨_, _, Relation.ReflTransGen.refl, Or.inl ⟨undeclared, Except.error.inj same⟩⟩
    · exact Or.inr (ih later isMetLater)
  | @body _ _ _ _ name args body _ declared _ _ ihInside ih =>
    rw [List.exists_mem_cons_iff]
    obtain ⟨here, later⟩ := List.forall_mem_cons.1 leads
    rcases List.mem_append.1 isMet with inside | isMetLater
    · have step : env.Expansion (.aliasOf name args) body := Expansion.ofAlias declared
      obtain ⟨u, isBody, tells⟩ := ihInside (fun u isBody p onWay => by
        obtain rfl := List.mem_singleton.1 isBody
        rcases List.mem_cons.1 onWay with rfl | earlier
        · exact Relation.TransGen.single step
        · exact (here p earlier).tail step) inside
      exact Or.inl ((List.mem_singleton.1 isBody ▸ tells).head step)
    · exact Or.inr (ih later isMetLater)
  | members _ _ ihInside ih =>
    rw [List.exists_mem_cons_iff]
    obtain ⟨here, later⟩ := List.forall_mem_cons.1 leads
    rcases List.mem_append.1 isMet with inside | isMetLater
    · obtain ⟨u, isMember, tells⟩ := ihInside (fun u isMember p onWay =>
        (here p onWay).tail (Expansion.ofMember isMember)) inside
      exact Or.inl (tells.head (Expansion.ofMember isMember))
    · exact Or.inr (ih later isMetLater)

/-- **From a type without aliases among its leaves**, these leaves are met. -/
theorem meets_leaves (path : List Ty) (t : Ty) :
    (∀ leaf ∈ t.leaves .union, ¬ leaf.IsAlias) → env.Meets path [t] ((t.leaves .union).map .ok) := by
  induction t using Ty.induction with
  | step t ih =>
    intro noAlias
    rcases t.isPlain_or with plain | isAlias | ⟨members, rfl⟩
    · rw [plain.leaves]
      exact .plain plain .nil
    · have single : t.leaves .union = [t] := Ty.leaves_of_not_isCompound isAlias.not_isCompound
      exact absurd isAlias (noAlias t (single ▸ List.mem_singleton.2 rfl))
    · rw [Ty.leaves_compound] at noAlias ⊢
      have each : ∀ us : List Ty, (∀ u ∈ us, u ∈ members) →
          env.Meets path us ((us.flatMap (Ty.leaves .union)).map .ok) := by
        intro us
        induction us with
        | nil => exact fun _ => .nil
        | cons u rest ihRest =>
          intro isMember
          have here : u ∈ members := isMember u List.mem_cons_self
          rw [List.flatMap_cons, List.map_append]
          refine (ih u here fun leaf isLeaf => noAlias leaf ?_).append
            (ihRest fun v later => isMember v (List.mem_cons_of_mem _ later))
          exact List.mem_flatMap.2 ⟨u, here, isLeaf⟩
      have inside := each members fun u isMember => isMember
      simpa using Meets.members inside .nil

end Environment

/-! ### What the answer is -/

/-- **All that is met are types**, and this is their union. -/
def Gathered (met : List (Except Error Ty)) (t : Ty) : Prop :=
  ∃ leaves, met = leaves.map .ok ∧ t = .union leaves

/-- **The first refusal that is met.** -/
def Refused (met : List (Except Error Ty)) (e : Error) : Prop :=
  ∃ (leaves : List Ty) (later : _), met = leaves.map .ok ++ .error e :: later

theorem Refused.append {met : List (Except Error Ty)} {e : Error} (refused : Refused met e)
    (more : List (Except Error Ty)) : Refused (met ++ more) e := by
  obtain ⟨leaves, later, rfl⟩ := refused
  exact ⟨leaves, later ++ more, by simp⟩

theorem Refused.after {met : List (Except Error Ty)} {e : Error} (refused : Refused met e)
    (before : List Ty) : Refused (before.map .ok ++ met) e := by
  obtain ⟨leaves, later, rfl⟩ := refused
  exact ⟨before ++ leaves, later, by simp⟩

/-- The first refusal in a list, if there is one. -/
def firstRefusal (met : List (Except Error Ty)) : Option (Except Error Ty) :=
  met.find? fun
    | .ok _ => false
    | .error _ => true

theorem firstRefusal_types (leaves : List Ty) (later : List (Except Error Ty)) :
    firstRefusal (leaves.map .ok ++ later) = firstRefusal later := by
  have none : (leaves.map Except.ok).find? (fun | .ok _ => false | .error (_ : Error) => true) = none := by
    simp
  rw [firstRefusal, List.find?_append, none]
  rfl

/-- **A list that is met has one outcome.** -/
theorem outcome_unique {met : List (Except Error Ty)} {x y : Except Error Ty}
    (outcome : Outcome (Gathered met) (Refused met) x) (outcome' : Outcome (Gathered met) (Refused met) y) :
    x = y := by
  have tells : ∀ {result : Except Error Ty}, Outcome (Gathered met) (Refused met) result →
      (∃ leaves, met = leaves.map .ok ∧ result = .ok (.union leaves)) ∨
        ∃ e, firstRefusal met = some (.error e) ∧ result = .error e := by
    rintro (e | t) outcome
    · obtain ⟨leaves, later, rfl⟩ := outcome
      exact Or.inr ⟨e, firstRefusal_types leaves _, rfl⟩
    · obtain ⟨leaves, all, rfl⟩ := outcome
      exact Or.inl ⟨leaves, all, rfl⟩
  have silent : ∀ leaves : List Ty, firstRefusal (leaves.map .ok) = firstRefusal [] := fun leaves => by
    simpa only [List.append_nil] using firstRefusal_types leaves []
  rcases tells outcome with ⟨leaves, all, rfl⟩ | ⟨e, first, rfl⟩ <;>
    rcases tells outcome' with ⟨leaves', all', rfl⟩ | ⟨e', first', rfl⟩
  · rw [(List.map_injective_iff.2 fun _ _ => Except.ok.inj) (all.symm.trans all')]
  · rw [all, silent] at first'
    cases first'
  · rw [all', silent] at first
    cases first
  · obtain rfl := Except.error.inj (Option.some.inj (first.symm.trans first'))
    rfl

namespace Analysis

variable {a : Analysis} {path : List Ty} {last : List Ty → Ty → AnalysisM Ty} {depth : Nat}

theorem expandTo_plain {t : Ty} (plain : t.IsPlain) :
    a.expandTo last (depth + 1) path t = pure t := by
  obtain ⟨s⟩ := t
  show Ty.recurse (a.expandLayer (a.expandTo last depth) path) ⟨s⟩ = pure ⟨s⟩
  rw [Ty.recurse_node]
  cases s with
  | applied head name args =>
    cases head with
    | ofAlias => exact absurd ⟨_, _, rfl⟩ plain.not_isAlias
    | _ => rfl
  | compound connective members =>
    cases connective with
    | union => exact absurd rfl (plain.ne_union members)
    | intersection => rfl
  | _ => rfl

theorem expandTo_union (members : List Ty) :
    a.expandTo last (depth + 1) path ⟨.compound .union members⟩ =
      members.mapM (a.expandTo last (depth + 1) path) >>= fun us => pure (.union us) := by
  show Ty.recurse (a.expandLayer (a.expandTo last depth) path) ⟨.compound .union members⟩ = _
  rw [Ty.recurse_node]
  show (members.map _).mapM id >>= _ = _
  rw [List.mapM_map]
  rfl

/-- What is met from the members of a union, given what is met from each. -/
theorem mapM_meets {f : Ty → AnalysisM Ty} (kind : Session → Prop) (members : List Ty)
    (each : ∀ u ∈ members, ∃ met, a.env.Meets path [u] met ∧
      Ends kind (f u) (Gathered met) (Refused met)) :
    ∃ met, a.env.Meets path members met ∧ Ends kind (members.mapM f)
      (fun us => ∃ leaves : List Ty, met = leaves.map .ok ∧ Ty.Alike .union us leaves) (Refused met) := by
  induction members with
  | nil => exact ⟨[], .nil, Ends.pure ⟨[], rfl, Ty.Alike.refl []⟩⟩
  | cons first rest ih =>
    obtain ⟨met, meets, ends⟩ := each first List.mem_cons_self
    obtain ⟨met', meets', ends'⟩ := ih fun u isMember => each u (List.mem_cons_of_mem _ isMember)
    refine ⟨met ++ met', meets.append meets', ?_⟩
    rw [List.mapM_cons]
    refine (ends.imp (fun _ gathered => gathered) fun e refused => refused.append met').bind
      fun u ⟨leaves, all, whole⟩ => ?_
    have later : Ends kind (rest.mapM f)
        (fun us => ∃ leaves' : List Ty, met' = leaves'.map .ok ∧ Ty.Alike .union us leaves')
        (Refused (met ++ met')) := by
      rw [all]
      exact ends'.imp (fun _ gathered => gathered) fun e refused => refused.after leaves
    refine later.bind fun us ⟨leaves', all', alike⟩ => Ends.pure ⟨leaves ++ leaves', ?_, ?_⟩
    · rw [all, all', List.map_append]
    · have front : Ty.Alike .union [u] leaves := whole ▸ Ty.alike_combine .union leaves
      exact front.append alike

/-- **What is met gives the answer**, if the bound exceeds the number of aliases not met, by one if an
alias has arguments. -/
theorem expandTo_meets (acyclic : a.env.arena.Acyclic) (receivers : List Ty) {t : Ty}
    (enough : a.env.unseen path + t.excess < depth) :
    ∃ met, a.env.Meets path [t] met ∧
      Ends (Session.OnWay a receivers) (a.expandTo refusing depth path t) (Gathered met)
        (Refused met) := by
  -- The induction is on the bound, which falls from an alias to its body, and then on the type.
  induction depth generalizing path t with
  | zero => exact absurd enough (Nat.not_lt_zero _)
  | succ depth ih =>
    induction t using Ty.induction with
    | step t ih' =>
      rcases t.isPlain_or with plain | ⟨name, args, rfl⟩ | ⟨members, rfl⟩
      · refine ⟨[.ok t], .plain plain .nil, ?_⟩
        rw [expandTo_plain plain]
        exact Ends.pure ⟨[t], rfl, plain.union_singleton.symm⟩
      · have layer : a.expandTo refusing (depth + 1) path (.aliasOf name args) =
            (if Ty.aliasOf name args ∈ path then throw (.recursiveAlias (.aliasOf name args)) else
              a.unfold name >>= a.expandTo refusing depth (.aliasOf name args :: path)) := by
          show Ty.recurse (a.expandLayer (a.expandTo refusing depth) path) (.aliasOf name args) = _
          rw [Ty.recurse_node]
          show (if Ty.aliasOf name args ∈ path then _ else _) = _
          split <;> rfl
        rw [layer]
        by_cases onWay : Ty.aliasOf name args ∈ path
        · rw [if_pos onWay]
          exact ⟨_, .again onWay .nil, Ends.throw ⟨[], [], rfl⟩⟩
        · rw [if_neg onWay]
          have unfolds : Ends (Session.OnWay a receivers) (a.unfold name)
              (fun body => a.env.aliasType name = .ok body) fun e => a.env.aliasType name = .error e :=
            Ensures.ofYields (onWay_unfold acyclic name) (by
              cases a.env.aliasType name <;> rfl)
          cases known : a.env.aliasType name with
          | error e =>
            obtain ⟨undeclared, rfl⟩ := Environment.lookup_eq_none_of_aliasType known
            refine ⟨_, .unknown onWay undeclared .nil, ?_⟩
            refine (unfolds.imp (fun _ declared => declared) fun e refused => ?_).bind
              fun body declared => ?_
            · obtain rfl := Except.error.inj (known.symm.trans refused)
              exact ⟨[], [], rfl⟩
            · cases known.symm.trans declared
          | ok body =>
            have fewer := Environment.unseen_cons_lt known onWay
            have simple : body.excess = 0 := Ty.excess_of_isDeclarable (isDeclarable_aliasType known)
            have fewer' : a.env.unseen (.aliasOf name args :: path) + body.excess < depth := by omega
            obtain ⟨met, meets, ends⟩ := ih fewer'
            refine ⟨met, by simpa using Environment.Meets.body onWay known meets .nil, ?_⟩
            refine (unfolds.imp (fun _ declared => declared) fun e refused => ?_).bind
              fun body' declared => ?_
            · cases known.symm.trans refused
            · exact Except.ok.inj (known.symm.trans declared) ▸ ends
      · obtain ⟨met, meets, ends⟩ := mapM_meets (Session.OnWay a receivers) members
          fun u isMember => ih' u isMember (by
            have less : u.excess ≤ (Ty.node (.compound .union members)).excess :=
              Ty.excess_le_of_mem_children isMember
            omega)
        refine ⟨met, by simpa using Environment.Meets.members meets .nil, ?_⟩
        rw [expandTo_union]
        exact ends.bind fun us ⟨leaves, all, alike⟩ => Ends.pure ⟨leaves, all, alike.combine_eq⟩

/-- **One list is met, and it gives the answer.** -/
theorem expandDeep_meets (acyclic : a.env.arena.Acyclic) (t : Ty) :
    ∃ met, a.env.Meets [] [t] met ∧ ∀ receivers, Ends (Session.OnWay a receivers) (a.expandDeep t)
      (Gathered met) (Refused met) := by
  have few : a.env.unseen [] + t.excess < a.env.aliasBound + 1 := by
    have aliases := a.env.unseen_le_length []
    have one := t.excess_le_one
    unfold Environment.aliasBound
    omega
  obtain ⟨met, meets, _⟩ := expandTo_meets acyclic [] few
  refine ⟨met, meets, fun receivers => ?_⟩
  obtain ⟨met', meets', ends⟩ := expandTo_meets acyclic receivers few
  rw [meets.unique meets']
  exact (expandDeep_same acyclic refusing (Nat.lt_succ_self _) t).symm.ends ends

/-- **What a type is expanded to** does not depend on what was asked before, nor on the aliases whose
interface is being computed. -/
theorem yields_expandDeep (acyclic : a.env.arena.Acyclic) (t : Ty) :
    ∃ result, ∀ receivers, Yields (Session.OnWay a receivers) (a.expandDeep t).run result := by
  obtain ⟨met, _, ends⟩ := expandDeep_meets acyclic t
  have start : (Session.start .initial 0).OnWay a [] := ⟨Session.coherent_start a _ _, rfl⟩
  refine ⟨(a.expandDeep t (.start .initial 0)).1, fun receivers s here => ?_⟩
  obtain ⟨outcome, after⟩ := ends receivers s here
  exact ⟨outcome_unique outcome (ends [] _ start).1, after⟩

/-- The types that are met are in normal form, apart from the arguments of aliases. -/
theorem isNormal_of_meets {ts : List Ty} {met : List (Except Error Ty)} {t : Ty}
    (meets : a.env.Meets path ts met) (normal : ∀ t ∈ ts, t.IsAlias ∨ t.IsNormal) (isMet : .ok t ∈ met) :
    t.IsNormal := by
  induction meets with
  | nil => cases isMet
  | plain isPlain _ ih =>
    obtain ⟨here, later⟩ := List.forall_mem_cons.1 normal
    rcases List.mem_cons.1 isMet with same | isMetLater
    · exact Except.ok.inj same ▸ here.resolve_left isPlain.not_isAlias
    · exact ih later isMetLater
  | again _ _ ih | unknown _ _ _ ih =>
    exact ih (List.forall_mem_cons.1 normal).2 (by simpa using isMet)
  | body _ declared _ _ ihInside ih =>
    rcases List.mem_append.1 isMet with inside | isMetLater
    · refine ihInside (fun u isBody => Or.inr ?_) inside
      exact List.mem_singleton.1 isBody ▸ isNormal_aliasType declared
    · exact ih (List.forall_mem_cons.1 normal).2 isMetLater
  | members _ _ ihInside ih =>
    obtain ⟨here, later⟩ := List.forall_mem_cons.1 normal
    rcases List.mem_append.1 isMet with inside | isMetLater
    · have isNormal := here.resolve_left fun ⟨_, _, same⟩ => nomatch same
      exact ihInside (fun u isMember => Or.inr (isNormal.of_mem_children isMember)) inside
    · exact ih later isMetLater

/-- **What an alias is expanded to is in normal form**, whatever its arguments are. -/
theorem isNormal_expandDeep (acyclic : a.env.arena.Acyclic) (receivers : List Ty) {t : Ty}
    (isAlias : t.IsAlias) :
    Ends (Session.OnWay a receivers) (a.expandDeep t) Ty.IsNormal fun _ => True := by
  obtain ⟨met, meets, ends⟩ := expandDeep_meets acyclic t
  refine (ends receivers).imp (fun u gathered => ?_) fun _ _ => trivial
  obtain ⟨leaves, rfl, rfl⟩ := gathered
  refine Ty.isNormal_union fun leaf isLeaf => ?_
  exact isNormal_of_meets meets (fun u same => Or.inl (List.mem_singleton.1 same ▸ isAlias))
    (List.mem_map_of_mem isLeaf)

/-- **Following aliases is exact.** At any time and for any type it comes to an end, whatever is done at
the bound. What is met on the way, from left to right and deepest first, is one list, and the answer is the
union of its types or its first refusal. There is a type exactly if every alias that is reached is declared
and no circle is reached; then it is the type itself if that is plain, it has no alias among its leaves, and
following aliases leaves it as it is. A refusal is for a reached alias that is not declared, or for one that
reaches itself. -/
theorem expandDeep_exact (acyclic : a.env.arena.Acyclic) (names : Interner) (nextFresh : Nat)
    (events : List Event) (t : Ty) :
    let s := a.after (.start names nextFresh) events
    (∀ (last : List Ty → Ty → AnalysisM Ty) (depth : Nat), a.env.aliasBound + 1 ≤ depth →
      a.expandTo last depth [] t s = a.expandDeep t s) ∧
    (∃ met, a.env.Meets [] [t] met ∧ (∀ met', a.env.Meets [] [t] met' → met' = met) ∧
      (∀ leaf, .ok leaf ∈ met → leaf.IsPlain) ∧
      Outcome (Gathered met) (Refused met) (a.expandDeep t s).1) ∧
    ((∃ u, (a.expandDeep t s).1 = .ok u) ↔ a.env.Expandable t) ∧
    (∀ u, (a.expandDeep t s).1 = .ok u →
      (t.IsPlain → u = t) ∧ (∀ leaf ∈ u.leaves .union, ¬ leaf.IsAlias) ∧
      ∀ names' nextFresh' events',
        (a.expandDeep u (a.after (.start names' nextFresh') events')).1 = .ok u) ∧
    ∀ e, (a.expandDeep t s).1 = .error e → a.env.Tells t e := by
  intro s
  have idle : a.Idle s := idle_after acyclic (idle_start a names nextFresh) events
  have start : s.OnWay a [] := ⟨idle.coherent, idle.receivers⟩
  obtain ⟨met, meets, ends⟩ := expandDeep_meets acyclic t
  have outcome : Outcome (Gathered met) (Refused met) (a.expandDeep t s).1 := (ends [] s start).1
  have tells : ∀ e, (a.expandDeep t s).1 = .error e → a.env.Tells t e := fun e refused => by
    rw [refused] at outcome
    obtain ⟨leaves, later, all⟩ := outcome
    obtain ⟨u, same, tells⟩ := meets.tells (fun _ _ _ onWay => nomatch onWay)
      (all ▸ List.mem_append_right _ List.mem_cons_self)
    exact List.mem_singleton.1 same ▸ tells
  refine ⟨fun last depth enough => expandDeep_same acyclic last enough t s start,
    ⟨met, meets, fun met' meets' => meets'.unique meets, fun leaf => meets.isPlain, outcome⟩,
    ⟨fun ⟨u, given⟩ => ?_, fun expandable => ?_⟩, fun u given => ?_, tells⟩
  · rw [given] at outcome
    obtain ⟨leaves, rfl, _⟩ := outcome
    exact meets.expandable (fun e isMet => by simp at isMet) t List.mem_cons_self
  · cases answer : (a.expandDeep t s).1 with
    | ok u => exact ⟨u, rfl⟩
    | error e =>
      obtain ⟨name, args, reached, ⟨undeclared, _⟩ | ⟨circle, _⟩⟩ := tells e answer
      · obtain ⟨body, declared⟩ := expandable.declared name args reached
        cases declared.symm.trans (Environment.aliasType_of_lookup_eq_none undeclared)
      · exact absurd circle (expandable.straight _ reached)
  · rw [given] at outcome
    obtain ⟨leaves, rfl, rfl⟩ := outcome
    have plain : ∀ leaf ∈ leaves, leaf.IsPlain := fun leaf isLeaf =>
      meets.isPlain (List.mem_map_of_mem isLeaf)
    have noAlias : ∀ leaf ∈ (Ty.union leaves).leaves .union, ¬ leaf.IsAlias := by
      intro leaf isLeaf
      rcases Ty.mem_leaves_combine isLeaf with rfl | ⟨u, isGathered, inside⟩
      · rintro ⟨_, _, ⟨⟩⟩
      · rw [(plain u isGathered).leaves, List.mem_singleton] at inside
        exact inside ▸ (plain u isGathered).not_isAlias
    refine ⟨fun isPlain => ?_, noAlias, fun names' nextFresh' events' => ?_⟩
    · have single := meets.unique (.plain isPlain .nil)
      obtain rfl : leaves = [t] := by simpa using single
      exact isPlain.union_singleton
    · obtain ⟨met', meets', ends'⟩ := expandDeep_meets acyclic (Ty.union leaves)
      obtain rfl := meets'.unique (Environment.meets_leaves [] _ noAlias)
      have again := outcome_after acyclic names' nextFresh' events' (ends' [])
      change Outcome _ _ (a.expandDeep _ _).1 at again
      have whole : Ty.union ((Ty.union leaves).leaves .union) = Ty.union leaves :=
        (Ty.alike_leaves .union _).combine_eq.symm.trans (Ty.combine_combine .union leaves)
      cases answer : (a.expandDeep (Ty.union leaves) (a.after (.start names' nextFresh') events')).1 with
      | ok u =>
        rw [answer] at again
        obtain ⟨leaves', all, rfl⟩ := again
        rw [← (List.map_injective_iff.2 fun _ _ => Except.ok.inj) all, whole]
      | error e =>
        rw [answer] at again
        obtain ⟨before, later, all⟩ := again
        have isMet : (.error e : Except Error Ty) ∈ ((Ty.union leaves).leaves .union).map .ok :=
          all ▸ List.mem_append_right _ List.mem_cons_self
        simp at isMet

/-- Three aliases: `plain = nil | bool`, `nested = plain | void` and `ring = ring | nested`. -/
def ofAliases : Analysis where
  env := { Environment.empty 0 with
    arena := ((((((((Arena.empty 0).push (.base .nil)).push (.base .boolean)).push
      (.compound .union [0, 1])).push (.aliasRef (.topLevel ⟨26⟩))).push (.base .void)).push
        (.compound .union [3, 4])).push (.aliasRef (.topLevel ⟨27⟩))).push
          (.aliasRef (.topLevel ⟨28⟩)) |>.push (.compound .union [7, 6])
    aliases := [(.topLevel ⟨26⟩, 2), (.topLevel ⟨27⟩, 5), (.topLevel ⟨28⟩, 8)] }
  core := .standard
  joinRule := .structural

/-- Two members follow the same alias, one of them through another alias; a third one is met while it is
being followed. -/
theorem expandDeep_exact_nested :
    let plain := Ty.aliasOf (.topLevel ⟨26⟩) []
    let nested := Ty.aliasOf (.topLevel ⟨27⟩) []
    let ring := Ty.aliasOf (.topLevel ⟨28⟩) []
    let both : Ty := ⟨.compound .union [nested, plain]⟩
    let s := ofAliases.after (.start .initial 0) [.ask (.expandDeep ring)]
    ofAliases.env.arena.Acyclic ∧
      (ofAliases.expandDeep both s).1 = .ok (.union [.nil, .boolean, .void]) ∧
      ofAliases.env.Expandable both ∧
      (ofAliases.expandDeep ring s).1 = .error (.recursiveAlias ring) ∧
      ofAliases.env.Tells ring (.recursiveAlias ring) := by
  intro plain nested ring both s
  have acyclic : ofAliases.env.arena.Acyclic :=
    (((((((((Arena.acyclic_empty 0).push (by decide)).push (by decide)).push (by decide)).push
      (by decide)).push (by decide)).push (by decide)).push (by decide)).push (by decide)).push
        (by decide)
  have given : (ofAliases.expandDeep both s).1 = .ok (.union [.nil, .boolean, .void]) := by rfl
  have refused : (ofAliases.expandDeep ring s).1 = .error (.recursiveAlias ring) := by rfl
  obtain ⟨_, _, exact, _, _⟩ :=
    expandDeep_exact acyclic .initial 0 [.ask (.expandDeep ring)] both
  obtain ⟨_, _, _, _, tells⟩ :=
    expandDeep_exact acyclic .initial 0 [.ask (.expandDeep ring)] ring
  exact ⟨acyclic, given, exact.1 ⟨_, given⟩, refused, tells _ refused⟩

end Analysis

end SignatureAlgebra
