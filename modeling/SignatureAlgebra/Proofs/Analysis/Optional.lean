/-
**Splitting a type by what a condition takes it for.**

Only a union is split: into the union of its members other than `nil` and `false`, and the union of those two
as far as they are members. To see a union behind an alias, aliases are followed one level at a time. An alias
has one body, so there is one way to go: it ends at a type that is no alias, stops at an alias that is not
declared, or goes round in a circle. Nothing but an alias of the last two kinds is refused, and where a union
is split no member is lost.

* `Environment.Follows`, `FollowedTo` — one alias followed, and any number; `Environment.Loops` — a circle.
* `Environment.FollowedTo.onward`, `not_loops` — where the way ends, all of it leads there.
* `Analysis.followTo_same`, `followTo_ends` — following aliases, without its bound.
* `Ty.SplitsInto` — the two parts; `Ty.SplitsInto.sameMembers` — together they have all members.
* `Analysis.unwrapOptional_splits` — the statement.
-/
import SignatureAlgebra.Proofs.Analysis.Walks
import SignatureAlgebra.Proofs.Ty.Connecting

namespace SignatureAlgebra

/-! ### The way from alias to alias -/

namespace Environment

/-- **One alias followed**: from a declared alias to its body, whatever its arguments are. -/
inductive Follows (env : Environment) : Ty → Ty → Prop where
  | body {name : TypeName} {args : List Ty} {body : Ty} (declared : env.aliasType name = .ok body) :
    Follows env (.aliasOf name args) body

/-- Any number of aliases followed, one after the other. -/
abbrev FollowedTo (env : Environment) : Ty → Ty → Prop := Relation.ReflTransGen env.Follows

/-- A type that following aliases leads back to. -/
def Loops (env : Environment) (t : Ty) : Prop := Relation.TransGen env.Follows t t

variable {env : Environment} {t u e : Ty}

theorem rightUnique_follows (env : Environment) : Relator.RightUnique env.Follows := by
  rintro _ u v ⟨declared⟩ ⟨declared'⟩
  exact Except.ok.inj (declared.symm.trans declared')

theorem isAlias_of_follows (follows : env.Follows t u) : t.IsAlias := by
  cases follows with
  | body declared => exact ⟨_, _, rfl⟩

theorem not_follows_of_not_isAlias (noAlias : ¬ t.IsAlias) (u : Ty) : ¬ env.Follows t u :=
  fun follows => noAlias (isAlias_of_follows follows)

theorem not_follows_of_undeclared {name : TypeName} {args : List Ty}
    (undeclared : env.aliases.lookup name = none) (u : Ty) : ¬ env.Follows (.aliasOf name args) u := by
  rintro ⟨declared⟩
  cases declared.symm.trans (aliasType_of_lookup_eq_none undeclared)

/-- Where the way ends, everything on it leads there. -/
theorem FollowedTo.onward (ends : ∀ v, ¬ env.Follows e v) (toEnd : env.FollowedTo t e)
    (there : env.FollowedTo t u) : env.FollowedTo u e := by
  rcases Relation.ReflTransGen.total_of_right_unique env.rightUnique_follows there toEnd with onward | beyond
  · exact onward
  · rcases Relation.ReflTransGen.cases_head beyond with rfl | ⟨v, follows, _⟩
    · exact Relation.ReflTransGen.refl
    · exact absurd follows (ends v)

/-- The way has one end. -/
theorem FollowedTo.unique (ends : ∀ v, ¬ env.Follows e v) (ends' : ∀ v, ¬ env.Follows u v)
    (toEnd : env.FollowedTo t e) (toEnd' : env.FollowedTo t u) : u = e := by
  rcases Relation.ReflTransGen.cases_head (toEnd.onward ends toEnd') with same | ⟨v, follows, _⟩
  · exact same
  · exact absurd follows (ends' v)

theorem not_loops_of_followedTo (ends : ∀ v, ¬ env.Follows e v) (toEnd : env.FollowedTo t e) :
    ¬ env.Loops t := by
  induction toEnd using Relation.ReflTransGen.head_induction_on with
  | refl =>
    intro loops
    obtain ⟨v, follows, _⟩ := Relation.TransGen.head'_iff.1 loops
    exact ends v follows
  | head follows _ ih =>
    intro loops
    obtain ⟨v, follows', back⟩ := Relation.TransGen.head'_iff.1 loops
    obtain rfl := env.rightUnique_follows follows follows'
    exact ih (Relation.TransGen.tail' back follows)

/-- A way that ends does not go round in a circle. -/
theorem FollowedTo.not_loops (ends : ∀ v, ¬ env.Follows e v) (toEnd : env.FollowedTo t e)
    (there : env.FollowedTo t u) : ¬ env.Loops u := not_loops_of_followedTo ends (toEnd.onward ends there)

/-- **Why the way from a type is refused**: for an alias on it that it leads back to, or for one that is not
declared. -/
inductive Stuck (env : Environment) (t : Ty) : Error → Prop where
  | inCircle {u : Ty} (isAlias : u.IsAlias) (there : env.FollowedTo t u) (loops : env.Loops u) :
    Stuck env t (.recursiveAlias u)
  | undeclared {name : TypeName} {args : List Ty} (there : env.FollowedTo t (.aliasOf name args))
    (unknown : env.aliases.lookup name = none) : Stuck env t (.unknownAlias name)

variable {reason : Error} {name : TypeName}

/-- What refuses the rest of the way refuses all of it. -/
theorem Stuck.head (follows : env.Follows t u) (stuck : env.Stuck u reason) : env.Stuck t reason := by
  cases stuck with
  | inCircle isAlias there loops => exact .inCircle isAlias (.head follows there) loops
  | undeclared there unknown => exact .undeclared (.head follows there) unknown

theorem stuck_of_loops (there : env.FollowedTo t u) (loops : env.Loops u) :
    env.Stuck t (.recursiveAlias u) := by
  obtain ⟨_, follows, _⟩ := Relation.TransGen.head'_iff.1 loops
  exact .inCircle (isAlias_of_follows follows) there loops

/-- A way that is refused does not end. -/
theorem Stuck.isAlias_of_followedTo (stuck : env.Stuck t reason) (ends : ∀ v, ¬ env.Follows e v)
    (toEnd : env.FollowedTo t e) : e.IsAlias := by
  cases stuck with
  | inCircle _ there loops => exact absurd loops (toEnd.not_loops ends there)
  | undeclared there unknown =>
    rw [there.unique (not_follows_of_undeclared unknown) ends toEnd]
    exact ⟨_, _, rfl⟩

/-- One alias that is not declared can be all that refuses a way. -/
theorem Stuck.eq_unknownAlias (stuck : env.Stuck t (.unknownAlias name)) (stuck' : env.Stuck t reason) :
    reason = .unknownAlias name := by
  cases stuck with
  | undeclared there unknown =>
    cases stuck' with
    | inCircle _ there' loops =>
      exact absurd loops (there.not_loops (not_follows_of_undeclared unknown) there')
    | undeclared there' unknown' =>
      have same := there.unique (not_follows_of_undeclared unknown) (not_follows_of_undeclared unknown') there'
      rw [(Shape.applied.inj (Ty.node.inj same)).2.1]

/-- A way that is refused for a circle is refused for nothing else. -/
theorem Stuck.exists_recursiveAlias (stuck : env.Stuck t (.recursiveAlias u)) (stuck' : env.Stuck t reason) :
    ∃ v, reason = .recursiveAlias v := by
  cases stuck' with
  | inCircle _ _ _ => exact ⟨_, rfl⟩
  | undeclared there unknown => cases (Stuck.undeclared there unknown).eq_unknownAlias stuck

end Environment

namespace Analysis

variable {a : Analysis} {receivers : List Ty}

/-! ### Following without a bound -/

/-- Follows an alias, which is put on the way, with `next` for its body; any other type stays. -/
def followOne (a : Analysis) (next : List Ty → Ty → AnalysisM Ty) (path : List Ty) : Ty → AnalysisM Ty
  | .aliasOf name args => do
    if .aliasOf name args ∈ path then throw (.recursiveAlias (.aliasOf name args))
    next (.aliasOf name args :: path) (← a.unfold name)
  | t => return t

/-- Follows aliases until the type is none, with `last` for what is met after that many of them. -/
def followTo (a : Analysis) (last : List Ty → Ty → AnalysisM Ty) : Nat → List Ty → Ty → AnalysisM Ty
  | 0 => last
  | depth + 1 => a.followOne (a.followTo last depth)

theorem followOne_of_not_isAlias {t : Ty} (noAlias : ¬ t.IsAlias) (next : List Ty → Ty → AnalysisM Ty)
    (path : List Ty) : a.followOne next path t = pure t := by
  unfold followOne
  split
  · exact absurd ⟨_, _, rfl⟩ noAlias
  · rfl

theorem followWithin_of_not_isAlias {t : Ty} (noAlias : ¬ t.IsAlias) (bound : Nat) (path : List Ty) :
    a.followWithin bound path t = pure t := by
  unfold followWithin
  split
  · exact absurd ⟨_, _, rfl⟩ noAlias
  · rfl

theorem followWithin_eq_followTo (a : Analysis) (bound : Nat) :
    a.followWithin bound = a.followTo (fun _ t => throw (.recursiveAlias t)) (bound + 1) := by
  induction bound with
  | zero =>
    funext path t
    by_cases isAlias : t.IsAlias
    · obtain ⟨name, args, rfl⟩ := isAlias
      rfl
    · rw [followWithin_of_not_isAlias isAlias, followTo, followOne_of_not_isAlias isAlias]
  | succ bound ih =>
    funext path t
    by_cases isAlias : t.IsAlias
    · obtain ⟨name, args, rfl⟩ := isAlias
      rw [followTo, ← ih]
      rfl
    · rw [followWithin_of_not_isAlias isAlias, followTo, followOne_of_not_isAlias isAlias]

theorem followTo_add (a : Analysis) (last : List Ty → Ty → AnalysisM Ty) (depth more : Nat) :
    a.followTo last (depth + more) = a.followTo (a.followTo last more) depth := by
  induction depth with
  | zero => rw [Nat.zero_add]; rfl
  | succ depth ih => rw [Nat.succ_add, followTo, ih]; rfl

/-- **What is done at the bound does not matter** for the answer, if the bound exceeds the number of aliases
not met, by one if an alias has arguments. -/
theorem followTo_same (acyclic : a.env.arena.Acyclic) (last : List Ty → Ty → AnalysisM Ty)
    {depth : Nat} {path : List Ty} {t : Ty} (enough : a.env.unseen path + t.excess < depth) :
    SameOn (Session.OnWay a receivers) (a.followTo last depth path t)
      (a.followTo refusing depth path t) := by
  induction depth generalizing path t with
  | zero => exact absurd enough (Nat.not_lt_zero _)
  | succ depth ih =>
    by_cases isAlias : t.IsAlias
    · obtain ⟨name, args, rfl⟩ := isAlias
      show SameOn _
        (if Ty.aliasOf name args ∈ path then _ else a.unfold name >>= fun body =>
          a.followTo last depth (.aliasOf name args :: path) body)
        (if Ty.aliasOf name args ∈ path then _ else a.unfold name >>= fun body =>
          a.followTo refusing depth (.aliasOf name args :: path) body)
      refine SameOn.guarded fun isNew => ?_
      refine (SameOn.refl _).bind (ends_unfold acyclic name) fun body declared => ih ?_
      have fewer := Environment.unseen_cons_lt declared isNew
      rw [Ty.excess_of_isDeclarable (isDeclarable_aliasType declared)]
      exact Nat.lt_of_lt_of_le fewer (Nat.le_of_lt_succ enough)
    · rw [followTo, followTo, followOne_of_not_isAlias isAlias, followOne_of_not_isAlias isAlias]
      exact SameOn.refl _

/-- **What following aliases comes to**: the end of the way, or an alias that is refused, where those on the
way so far lead to the type at hand. -/
theorem followTo_ends (acyclic : a.env.arena.Acyclic) {depth : Nat} {path : List Ty} {t : Ty}
    (enough : a.env.unseen path + t.excess < depth)
    (onWay : ∀ u ∈ path, Relation.TransGen a.env.Follows u t) :
    Ends (Session.OnWay a receivers) (a.followTo refusing depth path t)
      (fun e => a.env.FollowedTo t e ∧ ¬ e.IsAlias) (a.env.Stuck t) := by
  induction depth generalizing path t with
  | zero => exact absurd enough (Nat.not_lt_zero _)
  | succ depth ih =>
    by_cases isAlias : t.IsAlias
    · obtain ⟨name, args, rfl⟩ := isAlias
      refine Ends.guarded (fun again => ?_) fun isNew => ?_
      · exact .inCircle ⟨name, args, rfl⟩ .refl (onWay _ again)
      have unfolds : Ends (Session.OnWay a receivers) (a.unfold name)
          (fun body => a.env.aliasType name = .ok body) (a.env.Stuck (.aliasOf name args)) := by
        refine Ensures.ofYields (onWay_unfold acyclic name) ?_
        cases known : a.env.aliasType name with
        | ok body => exact rfl
        | error reason =>
          obtain ⟨undeclared, rfl⟩ := Environment.lookup_eq_none_of_aliasType known
          exact .undeclared .refl undeclared
      refine unfolds.bind fun body declared => ?_
      have follows : a.env.Follows (.aliasOf name args) body := .body declared
      have fewer := Environment.unseen_cons_lt declared isNew
      have simple : body.excess = 0 := Ty.excess_of_isDeclarable (isDeclarable_aliasType declared)
      refine (ih (by omega) fun u isMember => ?_).imp
        (fun e ⟨toEnd, noAlias⟩ => ⟨.head follows toEnd, noAlias⟩) fun reason stuck => stuck.head follows
      rcases List.mem_cons.1 isMember with rfl | earlier
      · exact .single follows
      · exact (onWay u earlier).tail follows
    · rw [followTo, followOne_of_not_isAlias isAlias]
      exact Ends.pure ⟨.refl, isAlias⟩

theorem unseen_nil_lt (a : Analysis) (t : Ty) : a.env.unseen [] + t.excess < a.env.aliasBound + 1 := by
  have aliases := a.env.unseen_le_length []
  have one := t.excess_le_one
  unfold Environment.aliasBound
  omega

/-- The bound of following aliases does not matter, nor what is done at the bound. -/
theorem follow_same (acyclic : a.env.arena.Acyclic) (last : List Ty → Ty → AnalysisM Ty) {depth : Nat}
    (enough : a.env.aliasBound + 1 ≤ depth) (t : Ty) :
    SameOn (Session.OnWay a receivers) (a.followTo last depth [] t) (a.follow t) := by
  have few := a.unseen_nil_lt t
  obtain ⟨more, rfl⟩ := Nat.exists_eq_add_of_le enough
  rw [follow, followWithin_eq_followTo, followTo_add]
  exact (followTo_same acyclic _ few).trans (followTo_same acyclic _ few).symm

theorem follow_ends (acyclic : a.env.arena.Acyclic) (t : Ty) :
    Ends (Session.OnWay a receivers) (a.follow t) (fun e => a.env.FollowedTo t e ∧ ¬ e.IsAlias)
      (a.env.Stuck t) :=
  (follow_same acyclic refusing (Nat.le_refl _) t).symm.ends (followTo_ends acyclic (a.unseen_nil_lt t) nofun)

end Analysis

/-! ### The two parts -/

namespace Ty

/-- The types that a condition takes for false. -/
abbrev falsyConstants : List Ty := [.nil, .literal (.boolean false)]

theorem isFalsyConstant_eq (t : Ty) : t.isFalsyConstant = decide (t ∈ falsyConstants) := by
  unfold isFalsyConstant
  split
  · rfl
  · rfl
  · next notNil notFalse =>
    symm
    simpa using ⟨notNil, notFalse⟩

/-- **What a type is split into.** Of a union the second part is missing exactly if neither `nil` nor `false`
is a member. -/
structure SplitsInto (t truthy : Ty) (falsy : Option Ty) : Prop where
  ofUnion : ∀ members, t = ⟨.compound .union members⟩ →
    truthy = .union (members.filter (· ∉ falsyConstants)) ∧
    (falsy = none ↔ ∀ member ∈ members, member ∉ falsyConstants) ∧
    ∀ part, falsy = some part → part = .union (members.filter (· ∈ falsyConstants))
  whole : (∀ members, t ≠ ⟨.compound .union members⟩) → truthy = t ∧ falsy = none

variable {t truthy : Ty} {falsy : Option Ty}

/-- Members that are sorted into two unions are the members of both together. -/
theorem union_parts {members : List Ty} (connected : AreMembers .union members) (p : Ty → Bool) :
    SameMembers .union (.union [.union (members.filter fun t => !p t), .union (members.filter p)])
      ⟨.compound .union members⟩ := by
  have sorted : (members.filter (fun t => !p t) ++ members.filter p).Perm members :=
    List.perm_append_comm.trans (List.filter_append_perm p members)
  have again : AreMembers .union (members.filter (fun t => !p t) ++ members.filter p) :=
    ⟨sorted.length_eq ▸ connected.several, sorted.nodup_iff.2 connected.distinct,
      fun t isMember => connected.plain t (sorted.mem_iff.1 isMember)⟩
  have together : union [.union (members.filter fun t => !p t), .union (members.filter p)] =
      ⟨.compound .union (members.filter (fun t => !p t) ++ members.filter p)⟩ := by
    rw [← again.combine_eq]
    exact ((alike_combine .union _).append (alike_combine .union _)).combine_eq
  have flat : ∀ {ts : List Ty}, AreMembers .union ts → leaves .union ⟨.compound .union ts⟩ = ts := by
    intro ts connected
    rw [leaves_compound, List.flatMap_congr fun t isMember =>
      leaves_of_not_isCompound (connected.plain t isMember).1]
    simp
  rw [SameMembers, together, flat again, flat connected]
  exact sorted

/-- **No member is lost**: the two parts of a type in normal form have its members together. -/
theorem SplitsInto.sameMembers (splits : SplitsInto t truthy falsy) (normal : t.IsNormal) :
    SameMembers .union (.union (truthy :: falsy.toList)) t := by
  by_cases isUnion : ∃ members, t = ⟨.compound .union members⟩
  · obtain ⟨members, rfl⟩ := isUnion
    have connected : AreMembers .union members := normal.tidy
    obtain ⟨rfl, missing, second⟩ := splits.ofUnion members rfl
    cases falsy with
    | none =>
      have all : members.filter (· ∉ falsyConstants) = members :=
        List.filter_eq_self.2 fun t isMember => by simpa using missing.1 rfl t isMember
      have whole : union [union members] = ⟨.compound .union members⟩ :=
        (combine_combine .union members).trans connected.combine_eq
      rw [all, Option.toList_none, whole]
      exact List.Perm.refl _
    | some part =>
      rw [second part rfl]
      have parts := union_parts connected fun t => decide (t ∈ falsyConstants)
      simpa only [decide_not, Option.toList_some] using parts
  · obtain ⟨rfl, rfl⟩ := splits.whole fun members same => isUnion ⟨members, same⟩
    have whole : union [truthy] = truthy := normal.tidy.combine_singleton .union
    rw [Option.toList_none, whole]
    exact List.Perm.refl _

end Ty

namespace Analysis

variable {a : Analysis} {receivers : List Ty}

/-- What splitting a type comes to: its parts, or what refuses following its aliases. -/
theorem unwrapOptional_ends (acyclic : a.env.arena.Acyclic) (t : Ty) :
    Ends (Session.OnWay a receivers) (a.unwrapOptional t)
      (fun parts => ∃ e, (a.env.FollowedTo t e ∧ ¬ e.IsAlias) ∧ e.SplitsInto parts.1 parts.2)
      (a.env.Stuck t) := by
  refine (follow_ends acyclic t).bind fun e ended => ?_
  split
  · next members =>
    refine Ends.pure ⟨_, ended, fun members' same => ?_, fun other => absurd rfl (other members)⟩
    obtain ⟨_, rfl⟩ := Shape.compound.inj (Ty.node.inj same)
    have falsy : Ty.isFalsyConstant = fun t => decide (t ∈ Ty.falsyConstants) := funext Ty.isFalsyConstant_eq
    simp only [falsy, decide_not]
    refine ⟨trivial, ?_, fun part given => ?_⟩
    · simp
    · split at given
      · cases given
      · exact (Option.some.inj given).symm
  · next notUnion =>
    exact Ends.pure ⟨e, ended, fun members same => absurd same (notUnion members), fun _ => ⟨rfl, rfl⟩⟩

/-- What stands behind an alias is in normal form. -/
theorem isNormal_of_followedTo {t e : Ty} (there : a.env.FollowedTo t e) (noAlias : ¬ e.IsAlias)
    (known : t.IsAlias ∨ t.IsNormal) : e.IsNormal := by
  rcases Relation.ReflTransGen.cases_tail there with rfl | ⟨_, _, ⟨declared⟩⟩
  · exact known.resolve_left noAlias
  · exact isNormal_aliasType declared

/-- **Splitting a type loses nothing.** At any time and for any type, following its aliases comes to an end,
whatever is done at the bound. It is refused exactly if the way leads into a circle, for an alias on the circle,
or exactly if it leads to an alias that is not declared, for that alias. Otherwise the way has an end, which
is split; if it is in normal form, as it is behind an alias, the two parts have its members together. -/
theorem unwrapOptional_splits (acyclic : a.env.arena.Acyclic) (names : Interner) (nextFresh : Nat)
    (events : List Event) (t : Ty) :
    let s := a.after (.start names nextFresh) events
    let result := (a.unwrapOptional t s).1
    (∀ (last : List Ty → Ty → AnalysisM Ty) (depth : Nat), a.env.aliasBound + 1 ≤ depth →
      a.followTo last depth [] t s = a.follow t s) ∧
    ((∃ u, result = .error (.recursiveAlias u)) ↔ ∃ u, a.env.FollowedTo t u ∧ a.env.Loops u) ∧
    (∀ u, result = .error (.recursiveAlias u) → u.IsAlias ∧ a.env.FollowedTo t u ∧ a.env.Loops u) ∧
    (∀ name, result = .error (.unknownAlias name) ↔
      ∃ args, a.env.FollowedTo t (.aliasOf name args) ∧ a.env.aliases.lookup name = none) ∧
    (∀ reason, result = .error reason →
      (∃ u, reason = .recursiveAlias u) ∨ ∃ name, reason = .unknownAlias name) ∧
    ((∃ parts, result = .ok parts) ↔ ∃ e, a.env.FollowedTo t e ∧ ¬ e.IsAlias) ∧
    ∀ e, a.env.FollowedTo t e → ¬ e.IsAlias → ∃ truthy falsy, result = .ok (truthy, falsy) ∧
      e.SplitsInto truthy falsy ∧
      (t.IsAlias ∨ t.IsNormal → Ty.SameMembers .union (.union (truthy :: falsy.toList)) e) := by
  intro s result
  have idle : a.Idle s := idle_after acyclic (idle_start a names nextFresh) events
  have start : s.OnWay a [] := ⟨idle.coherent, idle.receivers⟩
  have outcome : Outcome _ _ result := (unwrapOptional_ends acyclic t s start).1
  have refused : ∀ {reason}, result = .error reason → a.env.Stuck t reason := fun same => by
    rw [same] at outcome
    exact outcome
  have ended : ∀ {parts}, result = .ok parts →
      ∃ e, (a.env.FollowedTo t e ∧ ¬ e.IsAlias) ∧ e.SplitsInto parts.1 parts.2 := fun same => by
    rw [same] at outcome
    exact outcome
  -- A way that is refused does not end, so what refuses it is what the answer is refused for.
  have refuses : ∀ {reason}, a.env.Stuck t reason →
      ∃ reason', result = .error reason' ∧ a.env.Stuck t reason' := fun stuck => by
    cases answer : result with
    | ok parts =>
      obtain ⟨e, ⟨toEnd, noAlias⟩, _⟩ := ended answer
      exact absurd (stuck.isAlias_of_followedTo (Environment.not_follows_of_not_isAlias noAlias) toEnd) noAlias
    | error reason' => exact ⟨reason', rfl, refused answer⟩
  have split : ∀ {e}, a.env.FollowedTo t e → ¬ e.IsAlias → ∃ truthy falsy,
      result = .ok (truthy, falsy) ∧ e.SplitsInto truthy falsy := fun {e} toEnd noAlias => by
    have stops : ∀ u, ¬ a.env.Follows e u := Environment.not_follows_of_not_isAlias noAlias
    cases answer : result with
    | ok parts =>
      obtain ⟨e', ⟨toEnd', noAlias'⟩, splits⟩ := ended answer
      obtain rfl := toEnd.unique stops (Environment.not_follows_of_not_isAlias noAlias') toEnd'
      exact ⟨parts.1, parts.2, rfl, splits⟩
    | error reason => exact absurd ((refused answer).isAlias_of_followedTo stops toEnd) noAlias
  refine ⟨fun last depth enough => follow_same acyclic last enough t s start, ⟨?_, ?_⟩, ?_, fun name => ⟨?_, ?_⟩,
    ?_, ⟨?_, ?_⟩, ?_⟩
  · rintro ⟨u, same⟩
    cases refused same with
    | inCircle _ there loops => exact ⟨u, there, loops⟩
  · rintro ⟨u, there, loops⟩
    have stuck := Environment.stuck_of_loops there loops
    obtain ⟨reason, same, stuck'⟩ := refuses stuck
    obtain ⟨v, rfl⟩ := stuck.exists_recursiveAlias stuck'
    exact ⟨v, same⟩
  · intro u same
    cases refused same with
    | inCircle isAlias there loops => exact ⟨isAlias, there, loops⟩
  · intro same
    cases refused same with
    | undeclared there unknown => exact ⟨_, there, unknown⟩
  · rintro ⟨args, there, unknown⟩
    have stuck : a.env.Stuck t (.unknownAlias name) := .undeclared there unknown
    obtain ⟨reason, same, stuck'⟩ := refuses stuck
    rw [same, stuck.eq_unknownAlias stuck']
  · intro reason same
    cases refused same with
    | inCircle _ _ _ => exact Or.inl ⟨_, rfl⟩
    | undeclared _ _ => exact Or.inr ⟨_, rfl⟩
  · rintro ⟨parts, same⟩
    obtain ⟨e, end', _⟩ := ended same
    exact ⟨e, end'⟩
  · rintro ⟨e, toEnd, noAlias⟩
    obtain ⟨truthy, falsy, same, _⟩ := split toEnd noAlias
    exact ⟨_, same⟩
  · intro e toEnd noAlias
    obtain ⟨truthy, falsy, same, splits⟩ := split toEnd noAlias
    exact ⟨truthy, falsy, same, splits, fun known =>
      splits.sameMembers (isNormal_of_followedTo toEnd noAlias known)⟩

/-- Five aliases: `maybe = bool | nil | false`, `again = maybe`, `there = back`, `back = there`, and `lost`,
which stands for an alias that is not declared. -/
def ofWays : Analysis where
  env := { Environment.empty 0 with
    arena := (((((((((Arena.empty 0).push (.base .boolean)).push (.base .nil)).push
      (.literal (.boolean false))).push (.compound .union [0, 1, 2])).push
        (.aliasRef (.topLevel ⟨26⟩))).push (.aliasRef (.topLevel ⟨29⟩))).push
          (.aliasRef (.topLevel ⟨28⟩))).push (.aliasRef (.topLevel ⟨31⟩)))
    aliases := [(.topLevel ⟨26⟩, 3), (.topLevel ⟨27⟩, 4), (.topLevel ⟨28⟩, 5), (.topLevel ⟨29⟩, 6),
      (.topLevel ⟨30⟩, 7)] }
  core := .standard
  joinRule := .structural

/-- A union behind two aliases is split; the other ways lead into a circle and to an alias that is not
declared. -/
theorem unwrapOptional_splits_ways :
    let again := Ty.aliasOf (.topLevel ⟨27⟩) []
    let back := Ty.aliasOf (.topLevel ⟨29⟩) []
    let there := Ty.aliasOf (.topLevel ⟨28⟩) []
    let lost := Ty.aliasOf (.topLevel ⟨30⟩) []
    let e : Ty := ⟨.compound .union [.boolean, .nil, .literal (.boolean false)]⟩
    let s := ofWays.after (.start .initial 0) [.ask (.unwrapOptional back)]
    ofWays.env.arena.Acyclic ∧ ofWays.env.FollowedTo again e ∧ ¬ e.IsAlias ∧ again.IsAlias ∧
      (ofWays.unwrapOptional again s).1 =
        .ok (.boolean, some ⟨.compound .union [.nil, .literal (.boolean false)]⟩) ∧
      Ty.SameMembers .union (.union [.boolean, ⟨.compound .union [.nil, .literal (.boolean false)]⟩]) e ∧
      (ofWays.unwrapOptional there s).1 = .error (.recursiveAlias there) ∧ ofWays.env.Loops there ∧
      (ofWays.unwrapOptional lost s).1 = .error (.unknownAlias (.topLevel ⟨31⟩)) ∧
      ∃ args, ofWays.env.FollowedTo lost (.aliasOf (.topLevel ⟨31⟩) args) := by
  intro again back there lost e s
  have acyclic : ofWays.env.arena.Acyclic :=
    ((((((((Arena.acyclic_empty 0).push (by decide)).push (by decide)).push (by decide)).push
      (by decide)).push (by decide)).push (by decide)).push (by decide)).push (by decide)
  have first : ofWays.env.Follows again (.aliasOf (.topLevel ⟨26⟩) []) := .body (by rfl)
  have toEnd : ofWays.env.FollowedTo again e := .head first (.single (.body (by rfl)))
  have noAlias : ¬ e.IsAlias := by
    show ¬ Ty.IsAlias ⟨.compound .union _⟩
    rintro ⟨_, _, ⟨⟩⟩
  have isAlias : again.IsAlias := ⟨_, _, rfl⟩
  have given : (ofWays.unwrapOptional again s).1 =
      .ok (.boolean, some ⟨.compound .union [.nil, .literal (.boolean false)]⟩) := by rfl
  have circle : (ofWays.unwrapOptional there s).1 = .error (.recursiveAlias there) := by rfl
  have gap : (ofWays.unwrapOptional lost s).1 = .error (.unknownAlias (.topLevel ⟨31⟩)) := by rfl
  obtain ⟨_, _, _, _, _, _, splits⟩ :=
    unwrapOptional_splits acyclic .initial 0 [.ask (.unwrapOptional back)] again
  obtain ⟨truthy, falsy, same, _, members⟩ := splits e toEnd noAlias
  obtain ⟨rfl, rfl⟩ := Prod.mk.inj (Except.ok.inj (given.symm.trans same))
  obtain ⟨_, _, loops, _⟩ :=
    unwrapOptional_splits acyclic .initial 0 [.ask (.unwrapOptional back)] there
  obtain ⟨_, _, _, unknown, _⟩ :=
    unwrapOptional_splits acyclic .initial 0 [.ask (.unwrapOptional back)] lost
  obtain ⟨args, toGap, _⟩ := (unknown _).1 gap
  exact ⟨acyclic, toEnd, noAlias, isAlias, given, members (Or.inl isAlias), circle, (loops _ circle).2.2, gap,
    args, toGap⟩

end Analysis

end SignatureAlgebra
