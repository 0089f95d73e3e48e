/-
**The interface of an alias and that of its body.**

An alias is expanded before its interface is computed: members of unions that are aliases are followed
too, and the union is built again, so that members that occur again and the word that adds nothing are
lost. In the body they are still there: each member has an interface of its own, and these are joined.
Nothing else differs if no variable is free in the receiver. So the alias has an interface exactly if the
body has one or fails at a member that stands for nothing, and then both have the same methods with the
same forms. They have the same method types as well, unless a type has two overloads of one form, and the
same interface if no member is lost.

* `Answers` — actions whose answer is known; `Analysis.interfaceAnew`, `Analysis.expandAnew` — the answers
  of a new session.
* `Analysis.answers_interfaceTo`, `Analysis.answers_expandDeep` — they are given at any time.
* `Analysis.interfaceAnew_union`, `interfaceAnew_alias`, `expandAnew_alias` — what they come to.
* `Analysis.interfaceAnew_leaves`, `Ty.leaves_union` — interfaces and unions by their leaves.
* `Analysis.interfaceFor_unfold` — the statement; `Analysis.interfaceFor_unfold_matters` — why not more
  holds.
-/
import SignatureAlgebra.Proofs.Analysis.Layers
import SignatureAlgebra.Proofs.Interface.Regrouping

namespace SignatureAlgebra

variable {α β σ : Type}

/-! ### Actions whose answer is known -/

/-- **On all states of a kind, an action that may fail has this answer.** -/
abbrev Answers (kind : σ → Prop) (x : ExceptT Error (StateM σ) α) (answer : Except Error α) : Prop :=
  Ends kind x (fun v => answer = .ok v) fun e => answer = .error e

namespace Answers

variable {kind kind' : σ → Prop} {x : ExceptT Error (StateM σ) α} {answer : Except Error α}

theorem run (answers : Answers kind x answer) {s : σ} (start : kind s) : (x.run s).1 = answer := by
  have outcome := (answers s start).1
  match (x.run s).1, outcome with
  | .ok v, same => exact same.symm
  | .error e, same => exact same.symm

theorem ofYields (yields : Yields kind x.run answer) : Answers kind x answer :=
  Ensures.ofYields yields (by cases answer <;> rfl)

theorem ofSame {y : ExceptT Error (StateM σ) α} (same : SameOn kind x y) (answers : Answers kind y answer) :
    Answers kind x answer := same.ends answers

/-- Two actions in lockstep have one answer. -/
theorem ofLockstep {y : ExceptT Error (StateM σ) α} (lockstep : Lockstep kind kind' x y Eq Eq) {s' : σ}
    (start' : kind' s') : Answers kind x (y.run s').1 := by
  intro s start
  obtain ⟨outcomes, after, _⟩ := lockstep s s' start start'
  refine ⟨?_, after⟩
  match (x.run s).1, (y.run s').1, outcomes with
  | .ok v, .ok w, same => exact congrArg Except.ok same.symm
  | .error e, .error e', same => exact congrArg Except.error same.symm

theorem pure (v : α) : Answers kind (pure v) (.ok v) := Ends.pure rfl

theorem bind {f : α → ExceptT Error (StateM σ) β} {g : α → Except Error β} (first : Answers kind x answer)
    (next : ∀ v, answer = .ok v → Answers kind (f v) (g v)) : Answers kind (x >>= f) (answer >>= g) := by
  refine Ends.bind (first.imp (fun _ given => given) fun e refused => ?_) fun v given => ?_
  · rw [refused]
    rfl
  · have step : (answer >>= g) = g v := by
      rw [given]
      rfl
    rw [step]
    exact next v given

theorem mapM {f : α → ExceptT Error (StateM σ) β} {g : α → Except Error β} (values : List α)
    (each : ∀ v ∈ values, Answers kind (f v) (g v)) : Answers kind (values.mapM f) (values.mapM g) := by
  induction values with
  | nil => exact pure []
  | cons first rest ih =>
    rw [List.mapM_cons, List.mapM_cons]
    refine (each first List.mem_cons_self).bind fun v _ => ?_
    exact (ih fun v member => each v (List.mem_cons_of_mem _ member)).bind fun _ _ => pure _

end Answers

/-- **A list of answers** is given exactly if each of them is. -/
theorem mapM_eq_ok_iff {f : α → Except Error β} {g : α → β} (known : ∀ v w, f v = .ok w → g v = w)
    {values : List α} {results : List β} :
    values.mapM f = .ok results ↔ (∀ v ∈ values, f v = .ok (g v)) ∧ results = values.map g := by
  induction values generalizing results with
  | nil =>
    exact ⟨fun same => ⟨nofun, (Except.ok.inj same).symm⟩, fun ⟨_, same⟩ => congrArg Except.ok same.symm⟩
  | cons first rest ih =>
    rw [List.mapM_cons, List.forall_mem_cons, List.map_cons]
    cases here : f first with
    | error e => exact ⟨nofun, fun ⟨⟨given, _⟩, _⟩ => nomatch given⟩
    | ok w =>
      obtain rfl := known first w here
      cases later : rest.mapM f with
      | error e => exact ⟨nofun, fun ⟨⟨_, given⟩, _⟩ => nomatch later.symm.trans (ih.2 ⟨given, rfl⟩)⟩
      | ok ws =>
        obtain ⟨given, rfl⟩ := ih.1 later
        exact ⟨fun same => ⟨⟨rfl, given⟩, (Except.ok.inj same).symm⟩,
          fun ⟨_, same⟩ => congrArg Except.ok same.symm⟩

/-- The values of answers, where there are any. -/
theorem exists_values (f : α → Except Error β) (other : β) : ∃ g : α → β, ∀ v w, f v = .ok w → g v = w := by
  refine ⟨fun v => (f v).toOption.getD other, fun v w given => ?_⟩
  show (f v).toOption.getD other = w
  rw [given]
  rfl

section TwoSteps

variable {γ : Type} {f : α → Except Error γ} {g : α → Except Error β} {h : β → Except Error γ}

/-- A list of answers in two steps, the first of which are given. -/
theorem mapM_bind_of_ok {values : List α} (each : ∀ v ∈ values, f v = g v >>= h) {ws : List β}
    (given : values.mapM g = .ok ws) : values.mapM f = ws.mapM h := by
  induction values generalizing ws with
  | nil =>
    obtain rfl := Except.ok.inj given
    rfl
  | cons first rest ih =>
    obtain ⟨here, later⟩ := List.forall_mem_cons.1 each
    rw [List.mapM_cons] at given
    cases now : g first with
    | error e => rw [now] at given; cases given
    | ok w =>
      cases next : rest.mapM g with
      | error e => rw [now, next] at given; cases given
      | ok ws' =>
        rw [now, next] at given
        obtain rfl := Except.ok.inj given
        rw [List.mapM_cons, List.mapM_cons, here, now, ih later next]
        rfl

/-- A list of answers in two steps, one of the first of which is refused. -/
theorem mapM_bind_of_error {values : List α} (each : ∀ v ∈ values, f v = g v >>= h) {e : Error}
    (refused : values.mapM g = .error e) {results : List γ} : values.mapM f ≠ .ok results := by
  induction values generalizing results with
  | nil => cases refused
  | cons first rest ih =>
    obtain ⟨here, later⟩ := List.forall_mem_cons.1 each
    intro given
    rw [List.mapM_cons] at refused given
    cases now : g first with
    | error e' => rw [here, now] at given; cases given
    | ok w =>
      cases next : rest.mapM g with
      | ok ws => rw [now, next] at refused; cases refused
      | error e' =>
        cases found : f first with
        | error _ => rw [found] at given; cases given
        | ok _ =>
          cases others : rest.mapM f with
          | error _ => rw [found, others] at given; cases given
          | ok _ =>
            rw [now, next] at refused
            exact ih later (next.trans refused) others

end TwoSteps

/-! ### Unions by their leaves -/

namespace Ty

/-- A type in normal form that stands for something has no leaf that adds nothing. -/
theorem ne_bottom_of_mem_leaves {t leaf : Ty} (normal : t.IsNormal) (proper : t ≠ .bottom)
    (isLeaf : leaf ∈ t.leaves .union) : leaf ≠ .bottom := by
  rcases leaves_of_normal (c := .union) normal with single | ⟨members, connected, _, all⟩
  · rw [single, List.mem_singleton] at isLeaf
    exact isLeaf ▸ proper
  · rw [all] at isLeaf
    exact (connected.plain leaf isLeaf).solid.2.2

theorem leaves_ne_nil {t : Ty} (normal : t.IsNormal) : t.leaves .union ≠ [] := by
  rcases leaves_of_normal (c := .union) normal with single | ⟨members, connected, _, all⟩
  · rw [single]
    exact List.cons_ne_nil _ _
  · rw [all]
    rintro rfl
    cases connected.several

/-- **The leaves of a union** are the leaves of its members, each once, if nothing absorbs and each member
stands for something. -/
theorem leaves_union {ts : List Ty} (some : ts ≠ []) (normal : ∀ t ∈ ts, t.IsNormal)
    (proper : ∀ t ∈ ts, t ≠ .bottom) (quiet : NothingAbsorbs .union ts) :
    (union ts).leaves .union = (ts.flatMap (leaves .union)).eraseDups := by
  have each : ∀ t ∈ ts, essence .union t = t.leaves .union := fun t isMember =>
    List.filter_eq_self.2 fun leaf isLeaf =>
      decide_eq_true (ne_bottom_of_mem_leaves (normal t isMember) (proper t isMember) isLeaf)
  have counts : essence .union (union ts) = (ts.flatMap (leaves .union)).eraseDups := by
    rw [← List.flatMap_congr each]
    exact essence_combine quiet
  have proper' : union ts ≠ .bottom := by
    intro same
    obtain ⟨first, rest, rfl⟩ := List.exists_cons_of_ne_nil some
    obtain ⟨leaf, others, found⟩ :=
      List.exists_cons_of_ne_nil (leaves_ne_nil (normal first List.mem_cons_self))
    have isLeaf : leaf ∈ ((first :: rest).flatMap (leaves .union)).eraseDups :=
      List.mem_eraseDups.2 (List.mem_flatMap.2 ⟨first, List.mem_cons_self, found ▸ List.mem_cons_self⟩)
    rw [← counts, same] at isLeaf
    cases isLeaf
  rw [← counts]
  exact (List.filter_eq_self.2 fun leaf isLeaf =>
    decide_eq_true (ne_bottom_of_mem_leaves (isNormal_union normal) proper' isLeaf)).symm

end Ty

namespace Analysis

variable {a : Analysis} {receivers : List Ty} {includePrivate : Bool} {selfType t : Ty} {depth : Nat}

/-! ### The answers of a new session -/

/-- The interface that a new session gives. -/
def interfaceAnew (a : Analysis) (includePrivate : Bool) (selfType t : Ty) : Except Error Interface :=
  (a.interfaceFor t includePrivate selfType (.start .initial 0)).1

/-- What a type is expanded to in a new session. -/
def expandAnew (a : Analysis) (t : Ty) : Except Error Ty := (a.expandDeep t (.start .initial 0)).1

theorem onWay_start (a : Analysis) : Session.OnWay a [] (.start .initial 0) :=
  ⟨Session.coherent_start a _ _, rfl⟩

/-- **What a type is expanded to**, at any time and with any aliases on the way. -/
theorem answers_expandDeep (acyclic : a.env.arena.Acyclic) (t : Ty) :
    Answers (Session.OnWay a receivers) (a.expandDeep t) (a.expandAnew t) := by
  obtain ⟨result, yields⟩ := yields_expandDeep acyclic t
  have anew : a.expandAnew t = result := (yields [] _ (onWay_start a)).1
  rw [anew]
  exact .ofYields (yields receivers)

/-- **The interface of a type**, at any time and with aliases on the way that it does not lead to, if no
variable is free in the receiver. -/
theorem answers_interfaceTo (acyclic : a.env.arena.Acyclic) (closed : selfType.freeVars = [])
    (enough : a.env.aliasBound + 2 ≤ depth)
    (unmet : ∀ u, u.IsAlias → a.env.Reaches selfType t u → u ∉ receivers) :
    Answers (Session.OnWay a receivers) (a.interfaceTo includePrivate refusing depth selfType t)
      (a.interfaceAnew includePrivate selfType t) := by
  have anew : a.interfaceAnew includePrivate selfType t =
      ((a.interfaceTo includePrivate refusing (a.env.aliasBound + 2) selfType t).run
        (.start .initial 0)).1 :=
    congrArg Prod.fst (interfaceFor_stable acyclic _ _ _ (onWay_start a))
  have same : ∀ u, u.IsAlias → a.env.Reaches selfType t u → (u ∈ receivers ↔ u ∈ []) :=
    fun u isAlias reached => ⟨fun onWay => absurd onWay (unmet u isAlias reached), nofun⟩
  have lockstep := ((layers_eq acyclic includePrivate).lockstep acyclic (a.env.aliasBound + 2) same).imp
    fun _ _ equal => equal closed
  rw [anew]
  exact .ofSame (interfaceTo_stable acyclic refusing enough _ _) (.ofLockstep lockstep (onWay_start a))

theorem answers_interfaceFor (acyclic : a.env.arena.Acyclic) (closed : selfType.freeVars = []) (t : Ty) :
    Answers (Session.OnWay a []) (a.interfaceFor t includePrivate selfType)
      (a.interfaceAnew includePrivate selfType t) :=
  .ofSame (interfaceFor_stable acyclic _ _)
    (answers_interfaceTo acyclic closed (Nat.le_refl _) fun _ _ _ => List.not_mem_nil)

/-! ### What the answers come to -/

/-- **The interface of a union** is joined of those of its members. -/
theorem interfaceAnew_union (acyclic : a.env.arena.Acyclic) (closed : selfType.freeVars = [])
    (members : List Ty) :
    a.interfaceAnew includePrivate selfType ⟨.compound .union members⟩ =
      members.mapM (a.interfaceAnew includePrivate selfType) >>= fun is =>
        pure (a.joinRule.joinAll selfType includePrivate is) := by
  have any : ∀ t, Answers (Session.OnWay a [])
      (a.interfaceTo includePrivate refusing (a.env.aliasBound + 2) selfType t)
      (a.interfaceAnew includePrivate selfType t) := fun t =>
    answers_interfaceTo acyclic closed (Nat.le_refl _) fun _ _ _ => List.not_mem_nil
  have layer : a.interfaceTo includePrivate refusing (a.env.aliasBound + 2) selfType
        ⟨.compound .union members⟩ =
      members.mapM (a.interfaceTo includePrivate refusing (a.env.aliasBound + 2) selfType) >>= fun is =>
        pure (a.joinRule.joinAll selfType includePrivate is) := by
    show Ty.recurse (a.receiverLayer includePrivate
      (a.interfaceTo includePrivate refusing (a.env.aliasBound + 1)) selfType) _ = _
    rw [Ty.recurse_node]
    show ((members.map _).mapM id >>= _ : AnalysisM Interface) = _
    rw [List.mapM_map]
    rfl
  have whole := (Answers.mapM members fun u _ => any u).bind fun is _ =>
    Answers.pure (a.joinRule.joinAll selfType includePrivate is)
  rw [← layer] at whole
  exact ((any _).run (onWay_start a)).symm.trans (whole.run (onWay_start a))

/-- **The interface of a settled alias** is that of what it is expanded to. -/
theorem interfaceAnew_alias (acyclic : a.env.arena.Acyclic) (closed : selfType.freeVars = [])
    {name : TypeName} {args : List Ty} (settled : a.env.Settled selfType (.aliasOf name args)) :
    a.interfaceAnew includePrivate selfType (.aliasOf name args) =
      a.expandAnew (.aliasOf name args) >>= a.interfaceAnew includePrivate selfType := by
  have isAlias : (Ty.aliasOf name args).IsAlias := ⟨name, args, rfl⟩
  have whole : Answers (Session.OnWay a [])
      (a.interfaceTo includePrivate refusing (a.env.aliasBound + 3) selfType (.aliasOf name args))
      (a.expandAnew (.aliasOf name args) >>= a.interfaceAnew includePrivate selfType) := by
    show Ends _ (Ty.recurse (a.receiverLayer includePrivate
      (a.interfaceTo includePrivate refusing (a.env.aliasBound + 2)) selfType) _) _ _
    rw [Ty.recurse_node]
    have expands := ((answers_expandDeep acyclic (.aliasOf name args)).and
      (expandDeep_ends acyclic selfType (.aliasOf name args)) : Ends (Session.OnWay a []) _ _ _)
    refine ends_receiverLayer_alias nofun (expands.imp (fun _ known => known) fun e ⟨refused, _⟩ => ?_)
      fun _ expanded ⟨given, expands⟩ => ?_
    · rw [refused]
      rfl
    · -- The alias lies on no circle, so what it is expanded to does not lead back to it.
      have unmet : ∀ u, u.IsAlias → a.env.Reaches selfType expanded u → u ∉ [.aliasOf name args] := by
        intro u isAlias' reached onWay
        obtain rfl := List.mem_singleton.1 onWay
        exact settled.not_circular_self (expands.leads isAlias isAlias' reached)
      rw [given]
      exact answers_interfaceTo acyclic closed (Nat.le_refl _) unmet
  have run : Answers (Session.OnWay a [])
      (a.interfaceTo includePrivate refusing (a.env.aliasBound + 3) selfType (.aliasOf name args))
      (a.interfaceAnew includePrivate selfType (.aliasOf name args)) :=
    answers_interfaceTo acyclic closed (Nat.le_succ _) fun _ _ _ => List.not_mem_nil
  exact (run.run (onWay_start a)).symm.trans (whole.run (onWay_start a))

/-- An answer that is given is for a settled type that absorbs nothing. -/
theorem interfaceAnew_known (acyclic : a.env.arena.Acyclic) {i : Interface}
    (given : a.interfaceAnew includePrivate selfType t = .ok i) :
    Connective.union.absorbs t = false ∧ a.env.Settled selfType t := by
  have ends : Ends (Session.OnWay a []) (a.interfaceFor t includePrivate selfType) _ _ :=
    (interfaceFor_stable acyclic _ _).ends (interfaceTo_ends acyclic _ selfType t)
  have outcome := (ends _ (onWay_start a)).1
  change Outcome _ _ (a.interfaceAnew includePrivate selfType t) at outcome
  rw [given] at outcome
  exact outcome

theorem interfaceAnew_bottom (i : Interface) : a.interfaceAnew includePrivate selfType .bottom ≠ .ok i := by
  have refused : a.interfaceAnew includePrivate selfType .bottom = .error (.invalidReceiver .bottom) := rfl
  rw [refused]
  nofun

/-- **What a union is expanded to** is the union of what its members are expanded to. -/
theorem expandAnew_union (acyclic : a.env.arena.Acyclic) (members : List Ty) :
    a.expandAnew ⟨.compound .union members⟩ = members.mapM a.expandAnew >>= fun us => pure (Ty.union us) := by
  have any : ∀ t, Answers (Session.OnWay a []) (a.expandTo refusing (a.env.aliasBound + 1) [] t)
      (a.expandAnew t) := fun t =>
    .ofSame (expandDeep_same acyclic refusing (Nat.lt_succ_self _) t) (answers_expandDeep acyclic t)
  have whole := (Answers.mapM members fun u _ => any u).bind fun us _ => Answers.pure (Ty.union us)
  rw [← expandTo_union] at whole
  exact ((any _).run (onWay_start a)).symm.trans (whole.run (onWay_start a))

theorem expandAnew_plain (acyclic : a.env.arena.Acyclic) (plain : t.IsPlain) : a.expandAnew t = .ok t := by
  have same := expandDeep_same acyclic refusing (Nat.lt_succ_self _) t _ (onWay_start a)
  rw [expandTo_plain plain] at same
  exact congrArg Prod.fst same.symm

/-- **An alias that lies on no circle** is expanded to what its body is expanded to. -/
theorem expandAnew_alias (acyclic : a.env.arena.Acyclic) {name : TypeName} {args : List Ty} {body : Ty}
    (declared : a.env.aliasType name = .ok body)
    (straight : ¬ Relation.ReflTransGen a.env.Expansion body (.aliasOf name args)) :
    a.expandAnew (.aliasOf name args) = a.expandAnew body := by
  obtain ⟨met, meets, ends⟩ := expandDeep_meets acyclic (.aliasOf name args)
  obtain ⟨met', meets', ends'⟩ := expandDeep_meets acyclic body
  have same : met = met' := by
    refine meets.unique (List.append_nil met' ▸ .body List.not_mem_nil declared ?_ .nil)
    refine meets'.congr_path fun t isBody u reached => ?_
    obtain rfl := List.mem_singleton.1 isBody
    refine ⟨nofun, fun onWay => ?_⟩
    obtain rfl := List.mem_singleton.1 onWay
    exact absurd reached straight
  subst same
  exact outcome_unique (ends [] _ (onWay_start a)).1 (ends' [] _ (onWay_start a)).1

/-! ### Interfaces by the leaves of a type -/

section Leaves

variable {I : Ty → Interface} {ts : List Ty}

/-- Interfaces that are joined each for itself, and all at once, where no member is lost. -/
theorem joinAll_of_keeps {rule : JoinRule} {I : Ty → Interface} {first : Ty} {rest : List Ty}
    (some : first.leaves .union ≠ []) (distinct : ((first :: rest).flatMap (Ty.leaves .union)).Nodup)
    (single : ∀ e ∈ rest, e.isCompound .union = false) :
    rule.joinAll selfType includePrivate
        (((first :: rest).flatMap (Ty.leaves .union)).eraseDups.map I) =
      rule.joinAll selfType includePrivate
        ((first :: rest).map fun e => rule.joinAll selfType includePrivate ((e.leaves .union).map I)) := by
  have alone : ∀ e ∈ rest, e.leaves .union = [e] := fun e isMember =>
    Ty.leaves_of_not_isCompound (single e isMember)
  have others : (rest.map fun e => rule.joinAll selfType includePrivate ((e.leaves .union).map I)) =
      rest.map I := List.map_congr_left fun e isMember => by
    rw [alone e isMember]
    rfl
  have flat : rest.flatMap (Ty.leaves .union) = rest := by
    rw [List.flatMap_congr alone]
    simp
  rw [eraseDups_of_nodup distinct, List.flatMap_cons, flat, List.map_append, List.map_cons, others,
    JoinRule.joinAll_front (by simpa using some)]

/-- **The interface of a type in normal form** is joined of those of its leaves. -/
theorem interfaceAnew_leaves (acyclic : a.env.arena.Acyclic) (closed : selfType.freeVars = [])
    (known : ∀ u i, a.interfaceAnew includePrivate selfType u = .ok i → I u = i) (normal : t.IsNormal)
    {i : Interface} :
    a.interfaceAnew includePrivate selfType t = .ok i ↔
      (∀ leaf ∈ t.leaves .union, a.interfaceAnew includePrivate selfType leaf = .ok (I leaf)) ∧
        i = a.joinRule.joinAll selfType includePrivate ((t.leaves .union).map I) := by
  rcases Ty.leaves_of_normal (c := .union) normal with single | ⟨members, _, rfl, all⟩
  · rw [single, List.forall_mem_singleton]
    constructor
    · intro given
      obtain rfl := known t i given
      exact ⟨given, rfl⟩
    · rintro ⟨given, rfl⟩
      exact given
  · rw [all, interfaceAnew_union acyclic closed]
    cases each : members.mapM (a.interfaceAnew includePrivate selfType) with
    | error e =>
      exact ⟨nofun, fun ⟨given, _⟩ => nomatch each.symm.trans ((mapM_eq_ok_iff known).2 ⟨given, rfl⟩)⟩
    | ok is =>
      obtain ⟨given, rfl⟩ := (mapM_eq_ok_iff known).1 each
      exact ⟨fun same => ⟨given, (Except.ok.inj same).symm⟩, fun ⟨_, same⟩ => congrArg Except.ok same.symm⟩

/-- All leaves of some types have an interface. -/
def AllKnown (a : Analysis) (includePrivate : Bool) (selfType : Ty) (I : Ty → Interface)
    (ts : List Ty) : Prop :=
  ∀ t ∈ ts, ∀ leaf ∈ t.leaves .union, a.interfaceAnew includePrivate selfType leaf = .ok (I leaf)

theorem AllKnown.ne_bottom (all : a.AllKnown includePrivate selfType I ts) : ∀ t ∈ ts, t ≠ .bottom := by
  rintro _ isMember rfl
  exact interfaceAnew_bottom _ (all .bottom isMember .bottom List.mem_cons_self)

theorem AllKnown.nothingAbsorbs (acyclic : a.env.arena.Acyclic)
    (all : a.AllKnown includePrivate selfType I ts) : Ty.NothingAbsorbs .union ts := by
  intro leaf isLeaf
  obtain ⟨t, isMember, isLeaf⟩ := List.mem_flatMap.1 isLeaf
  exact (interfaceAnew_known acyclic (all t isMember leaf isLeaf)).1

/-- **Each for itself**: the interfaces of some types, joined. -/
theorem interfaceAnew_each (acyclic : a.env.arena.Acyclic) (closed : selfType.freeVars = [])
    (known : ∀ u i, a.interfaceAnew includePrivate selfType u = .ok i → I u = i)
    (normal : ∀ t ∈ ts, t.IsNormal) {i : Interface} :
    (ts.mapM (a.interfaceAnew includePrivate selfType) >>= fun is =>
        pure (a.joinRule.joinAll selfType includePrivate is)) = .ok i ↔
      a.AllKnown includePrivate selfType I ts ∧ i = a.joinRule.joinAll selfType includePrivate
        (ts.map fun t => a.joinRule.joinAll selfType includePrivate ((t.leaves .union).map I)) := by
  have each : ∀ t ∈ ts, a.interfaceAnew includePrivate selfType t = .ok (I t) ↔
      (∀ leaf ∈ t.leaves .union, a.interfaceAnew includePrivate selfType leaf = .ok (I leaf)) ∧
        I t = a.joinRule.joinAll selfType includePrivate ((t.leaves .union).map I) := fun t isMember =>
    interfaceAnew_leaves acyclic closed known (normal t isMember)
  have all : (∀ t ∈ ts, a.interfaceAnew includePrivate selfType t = .ok (I t)) ↔
      a.AllKnown includePrivate selfType I ts := by
    refine forall₂_congr fun t isMember => ?_
    rw [each t isMember]
    refine and_iff_left_of_imp fun given => ?_
    exact known t _ ((interfaceAnew_leaves acyclic closed known (normal t isMember)).2 ⟨given, rfl⟩)
  cases joined : ts.mapM (a.interfaceAnew includePrivate selfType) with
  | error e =>
    exact ⟨nofun, fun ⟨given, _⟩ => nomatch joined.symm.trans ((mapM_eq_ok_iff known).2 ⟨all.2 given, rfl⟩)⟩
  | ok is =>
    obtain ⟨given, rfl⟩ := (mapM_eq_ok_iff known).1 joined
    have same : ts.map I = ts.map fun t =>
        a.joinRule.joinAll selfType includePrivate ((t.leaves .union).map I) :=
      List.map_congr_left fun t isMember => ((each t isMember).1 (given t isMember)).2
    rw [← same]
    exact ⟨fun equal => ⟨all.1 given, (Except.ok.inj equal).symm⟩,
      fun ⟨_, equal⟩ => congrArg Except.ok equal.symm⟩

/-- **All at once**: the interface of the union of some types that stand for something. -/
theorem interfaceAnew_combined (acyclic : a.env.arena.Acyclic) (closed : selfType.freeVars = [])
    (known : ∀ u i, a.interfaceAnew includePrivate selfType u = .ok i → I u = i) (some : ts ≠ [])
    (normal : ∀ t ∈ ts, t.IsNormal) (proper : ∀ t ∈ ts, t ≠ .bottom) {i : Interface} :
    a.interfaceAnew includePrivate selfType (.union ts) = .ok i ↔ a.AllKnown includePrivate selfType I ts ∧
      i = a.joinRule.joinAll selfType includePrivate
        ((ts.flatMap (Ty.leaves .union)).eraseDups.map I) := by
  have once : Ty.NothingAbsorbs .union ts → (a.interfaceAnew includePrivate selfType (.union ts) = .ok i ↔
      a.AllKnown includePrivate selfType I ts ∧ i = a.joinRule.joinAll selfType includePrivate
        ((ts.flatMap (Ty.leaves .union)).eraseDups.map I)) := by
    intro quiet
    rw [interfaceAnew_leaves acyclic closed known (Ty.isNormal_union normal),
      Ty.leaves_union some normal proper quiet]
    refine and_congr_left fun _ => ?_
    simp only [List.mem_eraseDups, List.mem_flatMap]
    exact ⟨fun all t isMember leaf isLeaf => all leaf ⟨t, isMember, isLeaf⟩,
      fun all leaf ⟨t, isMember, isLeaf⟩ => all t isMember leaf isLeaf⟩
  constructor
  · intro given
    have silent := (interfaceAnew_known acyclic given).1
    exact (once (Ty.nothingAbsorbs_of_absorbs_combine_eq_false silent)).1 given
  · rintro ⟨all, same⟩
    exact (once (all.nothingAbsorbs acyclic)).2 ⟨all, same⟩

/-- **Each for itself or all at once**: the interfaces differ only where a member stands for nothing, where
members occur again, or where a type has two overloads of one form. -/
theorem interfaceAnew_regrouped (acyclic : a.env.arena.Acyclic) (closed : selfType.freeVars = [])
    (includePrivate : Bool) (some : ts ≠ []) (normal : ∀ t ∈ ts, t.IsNormal) :
    let parts := ts.mapM (a.interfaceAnew includePrivate selfType) >>= fun is =>
      pure (a.joinRule.joinAll selfType includePrivate is)
    ((∃ i', parts = .ok i') ↔
      (∃ i, a.interfaceAnew includePrivate selfType (.union ts) = .ok i) ∧ ∀ t ∈ ts, t ≠ .bottom) ∧
    ∀ i i', a.interfaceAnew includePrivate selfType (.union ts) = .ok i → parts = .ok i' →
      (∀ first rest, ts = first :: rest → (ts.flatMap (Ty.leaves .union)).Nodup →
        (∀ t ∈ rest, t.isCompound .union = false) → i = i') ∧
      (a.joinRule = .structural → ∀ method,
        ((i.find? method).isSome ↔ (i'.find? method).isSome) ∧
        (∀ form, form ∈ i.formsOf method ↔ form ∈ i'.formsOf method) ∧
        ((∀ leaf ∈ (Ty.union ts).leaves .union, ∀ j,
            a.interfaceAnew includePrivate selfType leaf = .ok j → (j.formsOf method).Nodup) →
          i.typesOf method = i'.typesOf method)) := by
  intro parts
  obtain ⟨I, known⟩ := exists_values (a.interfaceAnew includePrivate selfType) (.empty selfType false)
  have each : ∀ i', parts = .ok i' ↔ a.AllKnown includePrivate selfType I ts ∧ i' = _ := fun i' =>
    interfaceAnew_each acyclic closed known normal
  have whole : (∀ t ∈ ts, t ≠ .bottom) → ∀ i, a.interfaceAnew includePrivate selfType (.union ts) = .ok i ↔
      a.AllKnown includePrivate selfType I ts ∧ i = _ := fun proper i =>
    interfaceAnew_combined acyclic closed known some normal proper
  refine ⟨⟨?_, ?_⟩, fun i i' given given' => ?_⟩
  · rintro ⟨i', given⟩
    obtain ⟨all, _⟩ := (each i').1 given
    exact ⟨⟨_, (whole all.ne_bottom _).2 ⟨all, rfl⟩⟩, all.ne_bottom⟩
  · rintro ⟨⟨i, given⟩, proper⟩
    obtain ⟨all, _⟩ := (whole proper i).1 given
    exact ⟨_, (each _).2 ⟨all, rfl⟩⟩
  · obtain ⟨all, rfl⟩ := (each i').1 given'
    obtain ⟨_, rfl⟩ := (whole all.ne_bottom i).1 given
    constructor
    · rintro first rest rfl distinct single
      exact joinAll_of_keeps (Ty.leaves_ne_nil (normal first List.mem_cons_self)) distinct single
    · intro structural method
      obtain ⟨presence, forms, types⟩ := JoinRule.joinAll_groups I (Ty.leaves .union) some
        (fun t isMember => Ty.leaves_ne_nil (normal t isMember)) selfType includePrivate method
      rw [structural]
      refine ⟨presence, forms, fun distinct => types fun leaf isLeaf => ?_⟩
      obtain ⟨t, isMember, inMember⟩ := List.mem_flatMap.1 isLeaf
      refine distinct leaf ?_ _ (all t isMember leaf inMember)
      rw [Ty.leaves_union some normal all.ne_bottom (all.nothingAbsorbs acyclic)]
      exact List.mem_eraseDups.2 isLeaf

end Leaves

/-! ### An alias and its body -/

/-- Following aliases goes where the interface comes from. -/
theorem reaches_of_expansion {t u : Ty} (reached : Relation.ReflTransGen a.env.Expansion t u) :
    a.env.Reaches selfType t u := by
  induction reached with
  | refl => exact Relation.ReflTransGen.refl
  | tail _ step ih =>
    cases step with
    | ofAlias declared => exact ih.tail (.ofAlias declared)
    | ofMember isMember => exact ih.tail (.ofMember isMember)

variable {name : TypeName} {body : Ty}

/-- **The interface of a settled alias** is that of what its body is expanded to. -/
theorem interfaceAnew_alias_body (acyclic : a.env.arena.Acyclic) (closed : selfType.freeVars = [])
    (declared : a.env.aliasType name = .ok body) {args : List Ty}
    (settled : a.env.Settled selfType (.aliasOf name args)) :
    a.interfaceAnew includePrivate selfType (.aliasOf name args) =
      a.expandAnew body >>= a.interfaceAnew includePrivate selfType := by
  rw [interfaceAnew_alias acyclic closed settled, expandAnew_alias acyclic declared]
  intro back
  exact settled.not_circular_self
    (Relation.TransGen.head' (Environment.Step.ofAlias declared) (reaches_of_expansion back))

/-- The interface of a settled type that is no union is that of what it is expanded to. -/
theorem interfaceAnew_expanded (acyclic : a.env.arena.Acyclic) (closed : selfType.freeVars = [])
    (settled : a.env.Settled selfType t) (single : t.isCompound .union = false) :
    a.interfaceAnew includePrivate selfType t =
      a.expandAnew t >>= a.interfaceAnew includePrivate selfType := by
  rcases t.isPlain_or with plain | ⟨name, args, rfl⟩ | ⟨members, rfl⟩
  · rw [expandAnew_plain acyclic plain]
    rfl
  · exact interfaceAnew_alias acyclic closed settled
  · cases single

/-- What a member of a declared body is expanded to is in normal form. -/
theorem isNormal_expandAnew (acyclic : a.env.arena.Acyclic) (normal : t.IsNormal)
    (single : t.isCompound .union = false) {expanded : Ty} (given : a.expandAnew t = .ok expanded) :
    expanded.IsNormal := by
  rcases t.isPlain_or with plain | isAlias | ⟨members, rfl⟩
  · obtain rfl := Except.ok.inj ((expandAnew_plain acyclic plain).symm.trans given)
    exact normal
  · have outcome := (isNormal_expandDeep acyclic [] isAlias _ (onWay_start a)).1
    change Outcome _ _ (a.expandAnew t) at outcome
    rw [given] at outcome
    exact outcome
  · cases single

/-- **A settled alias and its body**: a body that is no union has the same interface. The members of one
that is a union are expanded, and then have their interfaces each for itself in the body and all at once
in the alias, or one of them is refused. -/
theorem interfaceAnew_cases (acyclic : a.env.arena.Acyclic) (closed : selfType.freeVars = [])
    (declared : a.env.aliasType name = .ok body) {args : List Ty}
    (settled : a.env.Settled selfType (.aliasOf name args)) (includePrivate : Bool) :
    (body.isCompound .union = false ∧ a.interfaceAnew includePrivate selfType (.aliasOf name args) =
        a.interfaceAnew includePrivate selfType body) ∨
    ∃ members, body = ⟨.compound .union members⟩ ∧ members ≠ [] ∧
      ((∃ es, members.mapM a.expandAnew = .ok es ∧ (∀ e ∈ es, e.IsNormal) ∧
          a.expandAnew body = .ok (.union es) ∧
          a.interfaceAnew includePrivate selfType (.aliasOf name args) =
            a.interfaceAnew includePrivate selfType (.union es) ∧
          a.interfaceAnew includePrivate selfType body =
            es.mapM (a.interfaceAnew includePrivate selfType) >>= fun is =>
              pure (a.joinRule.joinAll selfType includePrivate is)) ∨
        ∀ i, a.interfaceAnew includePrivate selfType (.aliasOf name args) ≠ .ok i ∧
          a.interfaceAnew includePrivate selfType body ≠ .ok i) := by
  have ofAlias : a.interfaceAnew includePrivate selfType (.aliasOf name args) =
      a.expandAnew body >>= a.interfaceAnew includePrivate selfType :=
    interfaceAnew_alias_body acyclic closed declared settled
  have settled' : a.env.Settled selfType body := settled.inv (Environment.Step.ofAlias declared)
  by_cases single : body.isCompound .union = false
  · exact Or.inl ⟨single, ofAlias.trans (interfaceAnew_expanded acyclic closed settled' single).symm⟩
  · obtain ⟨members, rfl⟩ := Ty.eq_compound_of_isCompound (by simpa using single)
    have normal := isNormal_aliasType declared
    have connected : Ty.AreMembers .union members := normal.tidy
    have each : ∀ t ∈ members, a.interfaceAnew includePrivate selfType t =
        a.expandAnew t >>= a.interfaceAnew includePrivate selfType := fun t isMember =>
      interfaceAnew_expanded acyclic closed (settled'.inv (Environment.Step.ofMember isMember))
        (connected.plain t isMember).1
    have some : members ≠ [] := by
      rintro rfl
      cases connected.several
    refine Or.inr ⟨members, rfl, some, ?_⟩
    rw [ofAlias, expandAnew_union acyclic, interfaceAnew_union acyclic closed]
    cases all : members.mapM a.expandAnew with
    | ok es =>
      refine Or.inl ⟨es, rfl, fun e isExpanded => ?_, rfl, rfl, ?_⟩
      · obtain ⟨E, known⟩ := exists_values a.expandAnew .bottom
        obtain ⟨given, rfl⟩ := (mapM_eq_ok_iff known).1 all
        obtain ⟨t, isMember, rfl⟩ := List.mem_map.1 isExpanded
        exact isNormal_expandAnew acyclic (normal.of_mem_children isMember) (connected.plain t isMember).1
          (given t isMember)
      · rw [mapM_bind_of_ok each all]
    | error e =>
      refine Or.inr fun i => ⟨nofun, fun offered => ?_⟩
      cases joined : members.mapM (a.interfaceAnew includePrivate selfType) with
      | error e => rw [joined] at offered; cases offered
      | ok is => exact mapM_bind_of_error each all joined

/-- **No member of a body is lost**: the leaves of all that its members are expanded to are distinct, and none
but the first member is expanded to a union. -/
def KeepsMembers (expand : Ty → Except Error Ty) (body : Ty) : Prop :=
  ∀ members, body = ⟨.compound .union members⟩ → ∃ first rest, members.mapM expand = .ok (first :: rest) ∧
    ((first :: rest).flatMap (Ty.leaves .union)).Nodup ∧ ∀ e ∈ rest, e.isCompound .union = false

/-- **An alias and its body**, as a new session answers. -/
theorem interfaceAnew_unfold (acyclic : a.env.arena.Acyclic) (closed : selfType.freeVars = [])
    (declared : a.env.aliasType name = .ok body) (args : List Ty) (includePrivate : Bool) :
    ((∃ i', a.interfaceAnew includePrivate selfType body = .ok i') ↔
      (∃ i, a.interfaceAnew includePrivate selfType (.aliasOf name args) = .ok i) ∧
        ∀ members, body = ⟨.compound .union members⟩ → ∀ t ∈ members, a.expandAnew t ≠ .ok .bottom) ∧
    ∀ i i', a.interfaceAnew includePrivate selfType (.aliasOf name args) = .ok i →
      a.interfaceAnew includePrivate selfType body = .ok i' →
      (KeepsMembers a.expandAnew body → i = i') ∧
      (a.joinRule = .structural → ∀ method,
        ((i.find? method).isSome ↔ (i'.find? method).isSome) ∧
        (∀ form, form ∈ i.formsOf method ↔ form ∈ i'.formsOf method) ∧
        ((∀ expanded, a.expandAnew body = .ok expanded → ∀ leaf ∈ expanded.leaves .union, ∀ j,
            a.interfaceAnew includePrivate selfType leaf = .ok j → (j.formsOf method).Nodup) →
          i.typesOf method = i'.typesOf method)) := by
  by_cases settled : a.env.Settled selfType (.aliasOf name args)
  · obtain ⟨single, same⟩ | ⟨members, rfl, several, ⟨es, all, normal, whole, atOnce, each⟩ | refused⟩ :=
      interfaceAnew_cases acyclic closed declared settled includePrivate
    · have noMembers : ∀ members, body ≠ ⟨.compound .union members⟩ := by
        rintro members rfl
        cases single
      rw [same]
      refine ⟨⟨fun given => ⟨given, fun members isUnion => absurd isUnion (noMembers members)⟩, fun given =>
        given.1⟩, fun i i' given given' => ?_⟩
      obtain rfl := Except.ok.inj (given.symm.trans given')
      exact ⟨fun _ => rfl, fun _ _ => ⟨Iff.rfl, fun _ => Iff.rfl, fun _ => rfl⟩⟩
    · obtain ⟨E, known⟩ := exists_values a.expandAnew .bottom
      obtain ⟨expanded, rfl⟩ := (mapM_eq_ok_iff known).1 all
      have some : members.map E ≠ [] := by simpa using several
      have proper : (∀ members', (⟨.compound .union members⟩ : Ty) = ⟨.compound .union members'⟩ →
          ∀ t ∈ members', a.expandAnew t ≠ .ok .bottom) ↔ ∀ e ∈ members.map E, e ≠ .bottom := by
        rw [List.forall_mem_map]
        constructor
        · intro each t isMember nothing
          exact each members rfl t isMember (nothing ▸ expanded t isMember)
        · intro each members' same t isMember nothing
          obtain rfl := (Shape.compound.inj (Ty.node.inj same)).2
          exact each t isMember (known t _ nothing)
      obtain ⟨success, agree⟩ := interfaceAnew_regrouped acyclic closed includePrivate some normal
      rw [proper, atOnce, each]
      refine ⟨success, fun i i' given given' => ?_⟩
      obtain ⟨exactly, joined⟩ := agree i i' given given'
      refine ⟨fun keeps => ?_, fun structural method => ?_⟩
      · obtain ⟨first, rest, all', distinct, single⟩ := keeps members rfl
        have same := Except.ok.inj (all.symm.trans all')
        exact exactly first rest same (same ▸ distinct) single
      · obtain ⟨presence, forms, types⟩ := joined structural method
        exact ⟨presence, forms, fun distinct => types (distinct _ whole)⟩
    · refine ⟨⟨fun ⟨i', given⟩ => absurd given (refused i').2, fun ⟨⟨i, given⟩, _⟩ =>
        absurd given (refused i).1⟩, fun i i' given => absurd given (refused i).1⟩
  · have ofAlias : ∀ i, a.interfaceAnew includePrivate selfType (.aliasOf name args) ≠ .ok i := fun i given =>
      settled (interfaceAnew_known acyclic given).2
    have ofBody : ∀ i, a.interfaceAnew includePrivate selfType body ≠ .ok i := fun i given =>
      settled (Environment.settled_alias declared (interfaceAnew_known acyclic given).2)
    exact ⟨⟨fun ⟨i', given⟩ => absurd given (ofBody i'), fun ⟨⟨i, given⟩, _⟩ => absurd given (ofAlias i)⟩,
      fun i i' given => absurd given (ofAlias i)⟩

/-- **An alias has the interface of its body**, at any time and for any receiver in which no variable is
free, but for what unions lose. The body has an interface exactly if the alias has one and no member of
the body stands for nothing. Both are the same if no member is lost. In any case they have the same
methods with the same forms, and a method has the same method types if none of the types that the alias is
expanded to has two overloads of one form. -/
theorem interfaceFor_unfold (acyclic : a.env.arena.Acyclic) (names names' : Interner)
    (nextFresh nextFresh' : Nat) (events events' : List Event) (declared : a.env.aliasType name = .ok body)
    (includePrivate : Bool) (closed : selfType.freeVars = []) :
    let s := a.after (.start names nextFresh) events
    let s' := a.after (.start names' nextFresh') events'
    (a.unfold name s).1 = .ok body ∧
    ((∃ i', (a.interfaceFor body includePrivate selfType s').1 = .ok i') ↔
      (∃ i, (a.interfaceFor (.aliasOf name []) includePrivate selfType s).1 = .ok i) ∧
        ∀ members, body = ⟨.compound .union members⟩ → ∀ t ∈ members,
          (a.expandDeep t s').1 ≠ .ok .bottom) ∧
    ∀ i i', (a.interfaceFor (.aliasOf name []) includePrivate selfType s).1 = .ok i →
      (a.interfaceFor body includePrivate selfType s').1 = .ok i' →
      (KeepsMembers (fun t => (a.expandDeep t s').1) body → i = i') ∧
      (a.joinRule = .structural → ∀ method,
        ((i.find? method).isSome ↔ (i'.find? method).isSome) ∧
        (∀ form, form ∈ i.formsOf method ↔ form ∈ i'.formsOf method) ∧
        ((∀ expanded, (a.expandDeep body s').1 = .ok expanded → ∀ leaf ∈ expanded.leaves .union, ∀ j,
            (a.interfaceFor leaf includePrivate selfType s').1 = .ok j → (j.formsOf method).Nodup) →
          i.typesOf method = i'.typesOf method)) := by
  intro s s'
  have idle : a.Idle s := idle_after acyclic (idle_start a names nextFresh) events
  have idle' : a.Idle s' := idle_after acyclic (idle_start a names' nextFresh') events'
  have start : s.OnWay a [] := ⟨idle.coherent, idle.receivers⟩
  have start' : s'.OnWay a [] := ⟨idle'.coherent, idle'.receivers⟩
  have unfolds : (a.unfold name s).1 = .ok body := (onWay_unfold acyclic name s start).1.trans declared
  have computed : ∀ t, (a.interfaceFor t includePrivate selfType s).1 =
      a.interfaceAnew includePrivate selfType t := fun t => (answers_interfaceFor acyclic closed t).run start
  have computed' : ∀ t, (a.interfaceFor t includePrivate selfType s').1 =
      a.interfaceAnew includePrivate selfType t := fun t => (answers_interfaceFor acyclic closed t).run start'
  have expanded : (fun t => (a.expandDeep t s').1) = a.expandAnew := funext fun t =>
    (answers_expandDeep acyclic t).run start'
  have expanded' : ∀ t, (a.expandDeep t s').1 = a.expandAnew t := fun t => congrFun expanded t
  rw [expanded]
  simp only [computed, computed', expanded']
  exact ⟨unfolds, interfaceAnew_unfold acyclic closed declared [] includePrivate⟩

/-! ### What unions lose -/

namespace Unions

def first : TypeName := .topLevel ⟨26⟩
def second : TypeName := .topLevel ⟨27⟩
def nothing : TypeName := .topLevel ⟨28⟩
def maybe : TypeName := .topLevel ⟨29⟩
def again : TypeName := .topLevel ⟨30⟩
def mixed : TypeName := .topLevel ⟨31⟩
def both : TypeName := .topLevel ⟨32⟩
def write : Name := ⟨33⟩

/-- An overload `(param) -> nil`, over an arena whose first node is `nil`. -/
def writing (owner : TypeName) (param : NodeId) : DeclaredOverload :=
  ⟨⟨[], ⟨{ DeclaredParams.empty with required := [.anonymous param] }, 0⟩, none⟩, ⟨owner, .ofInstance⟩⟩

/-- A class with one method. -/
def classOf (overloads : List DeclaredOverload) : ClassEntry :=
  ⟨.ofClass, ⟨[], [⟨write, false, overloads⟩]⟩, ⟨[], []⟩⟩

/-- The method `write` of `first` takes `nil` or a truth value, that of `second` takes the receiver. The alias
`nothing` is `bot`, `again` is `first`, `maybe` is `first | nothing`, `mixed` is `first | second | again`, and
`both` is `again | second`. -/
def ofUnions : Analysis where
  env := { Environment.empty 0 with
    arena := (((((((((((Arena.empty 0).push (.base .nil)).push (.base .boolean)).push
      (.placeholder .selfType)).push (.base .bottom)).push (.classInstance first [])).push
        (.classInstance second [])).push (.aliasRef nothing)).push (.aliasRef again)).push
          (.compound .union [4, 6])).push (.compound .union [4, 5, 7])).push (.compound .union [7, 5])
    classes := [(first, classOf [writing first 0, writing first 1]), (second, classOf [writing second 2])]
    aliases := [(nothing, 3), (again, 4), (maybe, 8), (mixed, 9), (both, 10)] }
  core := .standard
  joinRule := .structural

theorem acyclic_ofUnions : ofUnions.env.arena.Acyclic :=
  (((((((((((Arena.acyclic_empty 0).push (by decide)).push (by decide)).push (by decide)).push
    (by decide)).push (by decide)).push (by decide)).push (by decide)).push (by decide)).push
      (by decide)).push (by decide)).push (by decide)

/-- The types of the overloads of `write`, with `nil` as the receiver. -/
def typesOfWrite (t : Ty) : Except Error (List MethodType) :=
  (ofUnions.interfaceFor t false .nil (.start .initial 0)).1.map fun i => i.typesOf write

theorem typesOfWrite_eq_ok {t : Ty} {types : List MethodType} : typesOfWrite t = .ok types ↔
    ∃ i, (ofUnions.interfaceFor t false .nil (.start .initial 0)).1 = .ok i ∧ i.typesOf write = types :=
  map_eq_ok_iff

/-- The method type `(t) -> nil`. -/
def taking (t : Ty) : MethodType := .ofTypes (.positional [t]) .nil

end Unions

open Unions

/-- The members of `both` are `first`, by another name, and `second`: nothing is lost, so the alias and
its body have the same interface. -/
theorem interfaceFor_unfold_both :
    let body : Ty := ⟨.compound .union [.aliasOf again [], .instanceOf second []]⟩
    ofUnions.env.arena.Acyclic ∧ ofUnions.env.aliasType both = .ok body ∧ Ty.nil.freeVars = [] ∧
      KeepsMembers (fun t => (ofUnions.expandDeep t (.start .initial 0)).1) body ∧
      ∃ i, (ofUnions.interfaceFor (.aliasOf both []) false .nil (.start .initial 0)).1 = .ok i ∧
        (ofUnions.interfaceFor body false .nil (.start .initial 0)).1 = .ok i ∧
        i.typesOf write = [taking .nil, taking ⟨.compound .intersection [.boolean, .nil]⟩] := by
  intro body
  have declared : ofUnions.env.aliasType both = .ok body := by rfl
  have keeps : KeepsMembers (fun t => (ofUnions.expandDeep t (.start .initial 0)).1) body := by
    intro members same
    obtain rfl := (Shape.compound.inj (Ty.node.inj same)).2
    exact ⟨.instanceOf first [], [.instanceOf second []], by rfl, by decide, by decide⟩
  have counted : typesOfWrite (.aliasOf both []) =
      .ok [taking .nil, taking ⟨.compound .intersection [.boolean, .nil]⟩] := by decide +kernel
  obtain ⟨i, computed, types⟩ := typesOfWrite_eq_ok.1 counted
  obtain ⟨_, success, agree⟩ := interfaceFor_unfold acyclic_ofUnions .initial .initial 0 0 [] [] declared
    false (rfl : Ty.nil.freeVars = [])
  have proper : ∀ members, body = ⟨.compound .union members⟩ → ∀ t ∈ members,
      (ofUnions.expandDeep t (.start .initial 0)).1 ≠ .ok .bottom := by
    intro members same
    obtain rfl := (Shape.compound.inj (Ty.node.inj same)).2
    decide +kernel
  obtain ⟨i', computed'⟩ := success.2 ⟨⟨i, computed⟩, proper⟩
  obtain rfl := (agree i i' computed computed').1 keeps
  exact ⟨acyclic_ofUnions, declared, rfl, keeps, i, computed, computed', types⟩

/-- **What unions lose matters.** The alias `maybe` has the interface of `first`, and its body has none,
since nothing can be called on `bot`. The overloads of `mixed` are those of `first` joined with that of
`second`; in its body they are joined with those of `first` once more, each with both of the same form. -/
theorem interfaceFor_unfold_matters :
    let maybeBody : Ty := ⟨.compound .union [.instanceOf first [], .aliasOf nothing []]⟩
    let mixedBody : Ty := ⟨.compound .union [.instanceOf first [], .instanceOf second [], .aliasOf again []]⟩
    Ty.nil.freeVars = [] ∧
      (ofUnions.env.aliasType maybe = .ok maybeBody ∧
        typesOfWrite (.aliasOf maybe []) = .ok [taking .nil, taking .boolean] ∧
        typesOfWrite maybeBody = .error (.invalidReceiver .bottom)) ∧
      (ofUnions.env.aliasType mixed = .ok mixedBody ∧
        typesOfWrite (.aliasOf mixed []) =
          .ok [taking .nil, taking ⟨.compound .intersection [.boolean, .nil]⟩] ∧
        typesOfWrite mixedBody = .ok [taking .nil, taking ⟨.compound .intersection [.nil, .boolean]⟩,
          taking ⟨.compound .intersection [.boolean, .nil]⟩]) := by
  decide +kernel

end Analysis

end SignatureAlgebra
