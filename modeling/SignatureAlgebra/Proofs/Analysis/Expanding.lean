/-
**Following aliases comes to an end, and finds circles only where there are any.**

Following aliases is bounded by a number of steps that is never used up: an alias that is met on the way
is refused before it is followed again, and only the alias at the start can have arguments. So whatever is
done at the bound, the answer is the same. A type that is expanded leads to nothing but its leaves, and an
alias that is refused lies on a circle.

* `SameOn` — actions that do the same on all states of a kind.
* `Environment.unseen`, `Ty.excess` — what falls with every alias that is followed.
* `Analysis.expandTo_same`, `expandDeep_same` — the bound does not matter.
* `Environment.Expands`, `Environment.Recurs` — what an expanded type tells of the type, and what a
  refused alias tells.
* `Analysis.expandDeep_ends` — the two outcomes of following aliases; `Analysis.expandDeep_stops` — where it
  stops.
-/
import SignatureAlgebra.Proofs.Analysis.Ensures
import SignatureAlgebra.Proofs.Analysis.ReceiverGraph
import SignatureAlgebra.Proofs.Conversion.Types

namespace SignatureAlgebra

variable {α β σ : Type}

/-! ### Actions that do the same -/

/-- **Two actions do the same** on all states of a kind. -/
def SameOn (kind : σ → Prop) (x y : ExceptT Error (StateM σ) α) : Prop :=
  ∀ s, kind s → x.run s = y.run s

namespace SameOn

variable {kind : σ → Prop}

theorem refl (x : ExceptT Error (StateM σ) α) : SameOn kind x x := fun _ _ => rfl

theorem symm {x y : ExceptT Error (StateM σ) α} (same : SameOn kind x y) : SameOn kind y x :=
  fun s start => (same s start).symm

theorem trans {x y z : ExceptT Error (StateM σ) α} (first : SameOn kind x y)
    (second : SameOn kind y z) : SameOn kind x z := fun s start =>
  (first s start).trans (second s start)

theorem ends {x y : ExceptT Error (StateM σ) α} {given : α → Prop} {refused : Error → Prop}
    (same : SameOn kind x y) (ends : Ends kind y given refused) : Ends kind x given refused := by
  intro s start
  rw [same s start]
  exact ends s start

theorem bind {x y : ExceptT Error (StateM σ) α} {f g : α → ExceptT Error (StateM σ) β}
    {given : α → Prop} {refused : Error → Prop} (first : SameOn kind x y)
    (ends : Ends kind y given refused) (next : ∀ v, given v → SameOn kind (f v) (g v)) :
    SameOn kind (x >>= f) (y >>= g) := by
  intro s start
  show ExceptT.bindCont f (x.run s).1 (x.run s).2 = ExceptT.bindCont g (y.run s).1 (y.run s).2
  rw [first s start]
  obtain ⟨outcome, after⟩ := ends s start
  match (y.run s).1, outcome with
  | .ok v, holds => exact next v holds (y.run s).2 after
  | .error e, _ => rfl

theorem mapM {f g : α → ExceptT Error (StateM σ) β} (values : List α)
    (each : ∀ v ∈ values, SameOn kind (f v) (g v))
    (keeps : ∀ v ∈ values, Ends kind (g v) (fun _ => True) fun _ => True) :
    SameOn kind (values.mapM f) (values.mapM g) := by
  induction values with
  | nil => exact refl _
  | cons first rest ih =>
    rw [List.mapM_cons, List.mapM_cons]
    refine (each first List.mem_cons_self).bind (keeps first List.mem_cons_self) fun _ _ => ?_
    have tail : Ends kind (rest.mapM g) (List.Forall₂ (fun _ _ => True) rest) fun _ => True :=
      Ends.mapM rest fun v member => keeps v (List.mem_cons_of_mem _ member)
    exact (ih (fun v member => each v (List.mem_cons_of_mem _ member))
      fun v member => keeps v (List.mem_cons_of_mem _ member)).bind tail fun _ _ => refl _

/-- A refusal in front of two actions. -/
theorem guarded {forbidden : Prop} [Decidable forbidden] {e : Error}
    {f g : Unit → ExceptT Error (StateM σ) α}
    (otherwise : ¬ forbidden → SameOn kind (f ()) (g ())) :
    SameOn kind (if forbidden then MonadExcept.throw e >>= f else f ())
      (if forbidden then MonadExcept.throw e >>= g else g ()) := by
  by_cases holds : forbidden
  · rw [if_pos holds, if_pos holds]
    exact fun _ _ => rfl
  · rw [if_neg holds, if_neg holds]
    exact otherwise holds

end SameOn

/-! ### What falls with every alias -/

/-- How many declared aliases are not among these types. -/
def Environment.unseen (env : Environment) (path : List Ty) : Nat :=
  (env.aliases.filter fun entry => .aliasOf entry.1 [] ∉ path).length

/-- One for a type in which an alias has arguments, and nothing for a type as it can be declared. -/
def Ty.excess (t : Ty) : Nat := if t.IsDeclarable then 0 else 1

theorem Ty.excess_le_one (t : Ty) : t.excess ≤ 1 := by
  unfold excess
  split <;> decide

theorem Ty.excess_of_isDeclarable {t : Ty} (declarable : t.IsDeclarable) : t.excess = 0 :=
  if_pos declarable

theorem Ty.excess_le_of_mem_children {t child : Ty} (isChild : child ∈ t.children) :
    child.excess ≤ t.excess := by
  by_cases declarable : t.IsDeclarable
  · rw [excess_of_isDeclarable (declarable.of_mem_children isChild)]
    exact Nat.zero_le _
  · have one : t.excess = 1 := if_neg declarable
    rw [one]
    exact child.excess_le_one

namespace Environment

variable {env : Environment} {selfType t : Ty}

theorem unseen_le_length (env : Environment) (path : List Ty) : env.unseen path ≤ env.aliases.length :=
  List.length_filter_le _ _

theorem unseen_cons_le (env : Environment) (path : List Ty) (t : Ty) :
    env.unseen (t :: path) ≤ env.unseen path := by
  refine (List.monotone_filter_right _ fun entry new => ?_).length_le
  simp only [List.mem_cons, not_or, decide_eq_true_eq] at new ⊢
  exact new.2

/-- **Every alias that is followed** lowers the number of aliases not met, or was one with arguments. -/
theorem unseen_cons_lt {path : List Ty} {name : TypeName} {args : List Ty} {body : Ty}
    (declared : env.aliasType name = .ok body) (isNew : .aliasOf name args ∉ path) :
    env.unseen (.aliasOf name args :: path) < env.unseen path + (Ty.aliasOf name args).excess := by
  cases args with
  | cons arg rest =>
    have one : (Ty.aliasOf name (arg :: rest)).excess = 1 :=
      if_neg fun declarable => List.cons_ne_nil arg rest declarable.self
    rw [one]
    exact Nat.lt_succ_of_le (env.unseen_cons_le path _)
  | nil =>
    have isEntry : ∃ id, (name, id) ∈ env.aliases := by
      unfold aliasType aliasBody at declared
      cases found : env.aliases.lookup name with
      | none => rw [found] at declared; cases declared
      | some id =>
        obtain ⟨before, after, split, _⟩ := List.lookup_eq_some_iff.1 found
        exact ⟨id, by rw [split]; simp⟩
    obtain ⟨id, member⟩ := isEntry
    have split : (env.aliases.filter fun entry => .aliasOf entry.1 [] ∉ .aliasOf name [] :: path) =
        (env.aliases.filter fun entry => .aliasOf entry.1 [] ∉ path).filter
          fun entry => entry.1 ≠ name := by
      rw [List.filter_filter]
      refine List.filter_congr fun entry _ => ?_
      have same : Ty.aliasOf entry.1 [] = .aliasOf name [] ↔ entry.1 = name :=
        ⟨fun equal => (Shape.applied.inj (Ty.node.inj equal)).2.1, fun equal => equal ▸ rfl⟩
      simp only [List.mem_cons, same, not_or, Bool.decide_and]
    have here : (name, id) ∈ env.aliases.filter fun entry => .aliasOf entry.1 [] ∉ path :=
      List.mem_filter.2 ⟨member, by simpa using isNew⟩
    rw [unseen, split]
    refine Nat.lt_of_lt_of_le ?_ (Nat.le_add_right _ _)
    exact List.length_filter_lt_length_iff_exists.2 ⟨(name, id), here, by simp⟩

end Environment

namespace Analysis

variable {a : Analysis} {receivers : List Ty}

/-! ### The bound does not matter -/

/-- Expands a type, with `last` for what is met after that many aliases in a row. -/
def expandTo (a : Analysis) (last : List Ty → Ty → AnalysisM Ty) : Nat → List Ty → Ty → AnalysisM Ty
  | 0 => last
  | depth + 1 => fun path => Ty.recurse (a.expandLayer (a.expandTo last depth) path)

theorem expandWithin_eq_expandTo (a : Analysis) (bound : Nat) :
    a.expandWithin bound = a.expandTo (fun _ t => throw (.recursiveAlias t)) (bound + 1) := by
  induction bound with
  | zero => rfl
  | succ bound ih =>
    funext path
    rw [expandWithin, ih]
    rfl

theorem expandTo_add (a : Analysis) (last : List Ty → Ty → AnalysisM Ty) (depth more : Nat) :
    a.expandTo last (depth + more) = a.expandTo (a.expandTo last more) depth := by
  induction depth with
  | zero => rw [Nat.zero_add]; rfl
  | succ depth ih => rw [Nat.succ_add, expandTo, ih]; rfl

/-- An end that refuses. -/
def refusing {γ : Type} {α : Type} (_ : γ) (_ : Ty) : AnalysisM α := throw .selfWithoutReceiver

theorem transparent_expandTo (a : Analysis) (depth : Nat) (path : List Ty) (t : Ty) :
    a.Transparent (a.expandTo refusing depth path t).run := by
  induction depth generalizing path t with
  | zero => exact (pervades_transparent a).throw _
  | succ depth ih => exact t.recurse_induction ((pervades_transparent a).expandLayer path ih)

/-- The body of an alias is declared, and refused only if it is not. -/
theorem ends_unfold (acyclic : a.env.arena.Acyclic) (name : TypeName) :
    Ends (Session.OnWay a receivers) (a.unfold name) (fun body => a.env.aliasType name = .ok body)
      fun e => ∀ t, e ≠ .recursiveAlias t := by
  refine Ensures.ofYields (onWay_unfold acyclic name) ?_
  cases declared : a.env.aliasType name with
  | ok body => exact rfl
  | error e =>
    unfold Environment.aliasType Environment.aliasBody at declared
    cases found : a.env.aliases.lookup name with
    | some id => rw [found] at declared; cases declared
    | none =>
      rw [found] at declared
      obtain rfl := Except.error.inj declared
      exact nofun

/-- What an alias stands for is the type of a node. -/
theorem eq_toTy_of_aliasType {name : TypeName} {body : Ty}
    (declared : a.env.aliasType name = .ok body) : ∃ id, body = a.env.arena.toTy id := by
  unfold Environment.aliasType at declared
  cases found : a.env.aliasBody name with
  | error e => rw [found] at declared; cases declared
  | ok id =>
    rw [found] at declared
    exact ⟨id, (Except.ok.inj declared).symm⟩

theorem isDeclarable_aliasType {name : TypeName} {body : Ty}
    (declared : a.env.aliasType name = .ok body) : body.IsDeclarable := by
  obtain ⟨id, rfl⟩ := eq_toTy_of_aliasType declared
  exact a.env.arena.isDeclarable_toTy id

theorem isNormal_aliasType {name : TypeName} {body : Ty}
    (declared : a.env.aliasType name = .ok body) : body.IsNormal := by
  obtain ⟨id, rfl⟩ := eq_toTy_of_aliasType declared
  exact a.env.arena.isNormal_toTy id

/-- **What is done at the bound does not matter** for the answer, if the bound exceeds the number of
aliases not met, by one if an alias has arguments. -/
theorem expandTo_same (acyclic : a.env.arena.Acyclic) (last : List Ty → Ty → AnalysisM Ty)
    {depth : Nat} {path : List Ty} {t : Ty} (enough : a.env.unseen path + t.excess < depth) :
    SameOn (Session.OnWay a receivers) (a.expandTo last depth path t)
      (a.expandTo refusing depth path t) := by
  induction depth generalizing path t with
  | zero => exact absurd enough (Nat.not_lt_zero _)
  | succ depth ih =>
    induction t using Ty.induction with
    | step t ih' =>
      obtain ⟨s⟩ := t
      show SameOn _ (Ty.recurse (a.expandLayer (a.expandTo last depth) path) ⟨s⟩)
        (Ty.recurse (a.expandLayer (a.expandTo refusing depth) path) ⟨s⟩)
      rw [Ty.recurse_node, Ty.recurse_node]
      cases s with
      | applied head name args =>
        cases head with
        | ofAlias =>
          show SameOn _
            (if Ty.aliasOf name args ∈ path then _ else a.unfold name >>= fun body =>
              a.expandTo last depth (.aliasOf name args :: path) body)
            (if Ty.aliasOf name args ∈ path then _ else a.unfold name >>= fun body =>
              a.expandTo refusing depth (.aliasOf name args :: path) body)
          refine SameOn.guarded fun isNew => ?_
          refine (SameOn.refl _).bind (ends_unfold acyclic name) fun body declared => ih ?_
          have fewer := Environment.unseen_cons_lt declared isNew
          rw [Ty.excess_of_isDeclarable (isDeclarable_aliasType declared)]
          exact Nat.lt_of_lt_of_le fewer (Nat.le_of_lt_succ enough)
        | _ => exact SameOn.refl _
      | compound connective members =>
        cases connective with
        | union =>
          have each : SameOn (Session.OnWay a receivers)
              (members.mapM (a.expandTo last (depth + 1) path))
              (members.mapM (a.expandTo refusing (depth + 1) path)) := by
            refine SameOn.mapM members (fun u isMember => ih' u isMember ?_) fun u _ =>
              (transparent_expandTo a (depth + 1) path u).ends acyclic
            exact Nat.lt_of_le_of_lt (Nat.add_le_add_left (Ty.excess_le_of_mem_children isMember) _)
              enough
          have transparent := (pervades_transparent a).mapMExcept members fun u _ =>
            transparent_expandTo a (depth + 1) path u
          show SameOn _ ((members.map _).mapM id >>= _) ((members.map _).mapM id >>= _)
          rw [List.mapM_map, List.mapM_map]
          exact each.bind (transparent.ends acyclic) fun _ _ => SameOn.refl _
        | intersection => exact SameOn.refl _
      | _ => exact SameOn.refl _

end Analysis

/-! ### What the outcomes tell -/

namespace Environment

variable {env : Environment} {selfType t u : Ty} {path : List Ty}

/-- **What a refused alias tells**, with some aliases on the way to a type: it lies on a circle, or it is
on the way and the type leads back to it. -/
def Recurs (env : Environment) (selfType : Ty) (path : List Ty) (t : Ty) (e : Error) : Prop :=
  ∀ u, e = .recursiveAlias u → u.IsAlias ∧
    (env.Circular selfType u ∨ (u ∈ path ∧ env.Reaches selfType t u))

theorem recurs_of_ne {e : Error} (other : ∀ u, e ≠ .recursiveAlias u) :
    env.Recurs selfType path t e := fun u same => absurd same (other u)

/-- A type that leads to another one leads back to what that one leads back to. -/
theorem Recurs.step {e : Error} (step : env.Step selfType t u) (recurs : env.Recurs selfType path u e) :
    env.Recurs selfType path t e := fun v same => by
  obtain ⟨isAlias, circle | ⟨onWay, back⟩⟩ := recurs v same
  · exact ⟨isAlias, Or.inl circle⟩
  · exact ⟨isAlias, Or.inr ⟨onWay, Relation.ReflTransGen.head step back⟩⟩

/-- An alias that its body, or anything it is expanded to, leads back to lies on a circle. -/
theorem Recurs.close {e : Error} (isAlias : t.IsAlias)
    (leads : ∀ v, v.IsAlias → env.Reaches selfType u v → Relation.TransGen (env.Step selfType) t v)
    (recurs : env.Recurs selfType (t :: path) u e) : env.Recurs selfType path t e := fun v same => by
  obtain ⟨isAlias', circle | ⟨onWay, back⟩⟩ := recurs v same
  · exact ⟨isAlias', Or.inl circle⟩
  · have forth := leads v isAlias' back
    rcases List.mem_cons.1 onWay with rfl | earlier
    · exact ⟨isAlias', Or.inl forth⟩
    · exact ⟨isAlias', Or.inr ⟨earlier, forth.to_reflTransGen⟩⟩

/-- **What an expanded type tells of the type**: it consists of what the type leads to, and it is settled
only if the type is, unless it is one of the two words that absorb all others. -/
structure Expands (env : Environment) (selfType t expanded : Ty) : Prop where
  reached : ∀ leaf ∈ expanded.leaves .union, leaf = .bottom ∨ (leaf = t ∧ ¬ t.IsAlias) ∨
    Relation.TransGen (env.Step selfType) t leaf
  settled : Connective.union.absorbs expanded = false → env.Settled selfType expanded →
    env.Settled selfType t
  declarable : t.IsDeclarable ∨ t.IsAlias → expanded.IsDeclarable
  declared : ∀ name args, t = .aliasOf name args → ∃ body, env.aliasType name = .ok body

/-- An alias leads to all that it is expanded to, and to what is behind that, apart from unions and the
word that adds nothing to them. -/
theorem Expands.reaches {expanded : Ty} (expands : env.Expands selfType t expanded) (isAlias : t.IsAlias)
    (plain : u.isCompound .union = false) (proper : u ≠ .bottom)
    (back : env.Reaches selfType expanded u) : Relation.TransGen (env.Step selfType) t u := by
  obtain ⟨leaf, isLeaf, further⟩ := exists_leaf_of_reaches (c := .union) expanded plain back
  rcases expands.reached leaf isLeaf with rfl | ⟨_, noAlias⟩ | there
  · rcases Relation.ReflTransGen.cases_head further with same | ⟨_, step, _⟩
    · exact absurd same.symm proper
    · cases step
  · exact absurd isAlias noAlias
  · exact there.trans_left further

/-- An alias leads to all aliases that it is expanded to, and to those behind them. -/
theorem Expands.leads {expanded : Ty} (expands : env.Expands selfType t expanded) (isAlias : t.IsAlias)
    (isAlias' : u.IsAlias) (back : env.Reaches selfType expanded u) :
    Relation.TransGen (env.Step selfType) t u := by
  refine expands.reaches isAlias isAlias'.not_isCompound ?_ back
  rintro rfl
  obtain ⟨_, _, same⟩ := isAlias'
  cases same

/-- What is left as it is. -/
theorem Expands.self (plain : t.isCompound .union = false) (noAlias : ¬ t.IsAlias) :
    env.Expands selfType t t where
  reached leaf isLeaf := by
    rw [Ty.leaves_of_not_isCompound plain, List.mem_singleton] at isLeaf
    exact Or.inr (Or.inl ⟨isLeaf, noAlias⟩)
  settled _ settled := settled
  declarable known := known.elim id fun isAlias => absurd isAlias noAlias
  declared name args same := absurd ⟨name, args, same⟩ noAlias

/-- An alias, from its body. -/
theorem Expands.alias {name : TypeName} {args : List Ty} {body expanded : Ty}
    (declared : env.aliasType name = .ok body) (declarable : body.IsDeclarable)
    (expands : env.Expands selfType body expanded) :
    env.Expands selfType (.aliasOf name args) expanded where
  reached leaf isLeaf := by
    have step : env.Step selfType (.aliasOf name args) body := Step.ofAlias declared
    rcases expands.reached leaf isLeaf with unit | ⟨rfl, _⟩ | further
    · exact Or.inl unit
    · exact Or.inr (Or.inr (Relation.TransGen.single step))
    · exact Or.inr (Or.inr (Relation.TransGen.head step further))
  settled silent settled := settled_alias declared (expands.settled silent settled)
  declarable _ := expands.declarable (Or.inl declarable)
  declared name' args' same := by
    obtain rfl := (Shape.applied.inj (Ty.node.inj same)).2.1
    exact ⟨body, declared⟩

theorem absorbs_of_mem {ts : List Ty} (silent : Connective.union.absorbs (.union ts) = false)
    (isMember : t ∈ ts) : Connective.union.absorbs t = false := by
  by_contra absorbs
  have absorbs' : Connective.union.absorbs t = true := by simpa using absorbs
  have quiet := Ty.nothingAbsorbs_of_absorbs_combine_eq_false silent
  have isLeaf : t ∈ t.leaves .union := by
    rw [Ty.leaves_of_not_isCompound (Ty.not_isCompound_of_absorbs absorbs')]
    exact List.mem_singleton.2 rfl
  rw [quiet t (List.mem_flatMap.2 ⟨t, isMember, isLeaf⟩)] at absorbs'
  cases absorbs'

theorem settled_bottom : env.Settled selfType .bottom := settled_of_no_step fun _ step => by cases step

/-- A union, from its members. -/
theorem Expands.union {members expanded : List Ty}
    (pairs : List.Forall₂ (env.Expands selfType) members expanded) :
    env.Expands selfType ⟨.compound .union members⟩ (.union expanded) where
  reached leaf isLeaf := by
    rcases Ty.mem_leaves_combine isLeaf with unit | ⟨e, isExpanded, isLeaf⟩
    · exact Or.inl unit
    · obtain ⟨u, isMember, expands⟩ := exists_left_of_forall₂ pairs isExpanded
      have step : env.Step selfType ⟨.compound .union members⟩ u := Step.ofMember isMember
      rcases expands.reached leaf isLeaf with unit | ⟨rfl, _⟩ | further
      · exact Or.inl unit
      · exact Or.inr (Or.inr (Relation.TransGen.single step))
      · exact Or.inr (Or.inr (Relation.TransGen.head step further))
  settled silent settled := by
    have quiet := Ty.nothingAbsorbs_of_absorbs_combine_eq_false silent
    refine settled_compound fun u isMember => ?_
    obtain ⟨e, isExpanded, expands⟩ := exists_right_of_forall₂ pairs isMember
    refine expands.settled (absorbs_of_mem silent isExpanded) ?_
    refine settled_of_leaves (c := .union) e fun leaf isLeaf => ?_
    rcases Ty.mem_leaves_of_quiet quiet isExpanded isLeaf with rfl | inUnion
    · exact settled_bottom
    · exact settled.reaches (reaches_leaf _ inUnion)
  declarable known := by
    have declarable : Ty.IsDeclarable ⟨.compound .union members⟩ :=
      known.elim id fun ⟨_, _, same⟩ => nomatch same
    intro x occurs
    obtain rfl | ⟨_, _, rfl⟩ | ⟨e, isExpanded, inExpanded⟩ := Ty.mem_subterms_combine occurs
    · rfl
    · rfl
    · obtain ⟨u, isMember, expands⟩ := exists_left_of_forall₂ pairs isExpanded
      exact expands.declarable (Or.inl (declarable.of_mem_children isMember)) x inExpanded
  declared name args same := nomatch same

/-- **Where following aliases stops**: at a type on the way that is the result, or is a union whose members
are followed further. -/
def Stops (env : Environment) (selfType t expanded : Ty) : Prop :=
  ∃ stop, env.Reaches selfType t stop ∧ env.Expands selfType stop expanded ∧
    (stop.isCompound .union = false → expanded = stop)

theorem Stops.self (plain : t.isCompound .union = false) (noAlias : ¬ t.IsAlias) :
    env.Stops selfType t t :=
  ⟨t, Relation.ReflTransGen.refl, Expands.self plain noAlias, fun _ => rfl⟩

/-- What an expanded type leads to, the type where following stops leads to as well, apart from the
expanded type itself if that is a union or the word that adds nothing to unions. -/
theorem Expands.reaches_or {expanded : Ty} (expands : env.Expands selfType t expanded)
    (normal : expanded.IsNormal) (reached : env.Reaches selfType expanded u) :
    env.Reaches selfType t u ∨
      (u = expanded ∧ (expanded.isCompound .union = true ∨ expanded = .bottom)) := by
  have further : ∀ leaf ∈ expanded.leaves .union, leaf ≠ .bottom → env.Reaches selfType t leaf := by
    intro leaf isLeaf proper
    rcases expands.reached leaf isLeaf with unit | ⟨rfl, _⟩ | way
    · exact absurd unit proper
    · exact Relation.ReflTransGen.refl
    · exact way.to_reflTransGen
  by_cases compound : expanded.isCompound .union = true
  · obtain ⟨members, rfl⟩ := Ty.eq_compound_of_isCompound compound
    rcases Relation.ReflTransGen.cases_head reached with rfl | ⟨v, step, onward⟩
    · exact Or.inr ⟨rfl, Or.inl rfl⟩
    · cases step with
      | ofMember isMember =>
        have connected : Ty.AreMembers .union members := normal.tidy
        have isLeaf : v ∈ Ty.leaves .union ⟨.compound .union members⟩ := by
          rw [Ty.leaves_compound]
          refine List.mem_flatMap.2 ⟨v, isMember, ?_⟩
          rw [Ty.leaves_of_not_isCompound (connected.plain v isMember).1]
          exact List.mem_singleton.2 rfl
        exact Or.inl ((further v isLeaf (connected.plain v isMember).2.2.2).trans onward)
  · have isLeaf : expanded ∈ expanded.leaves .union := by
      rw [Ty.leaves_of_not_isCompound (by simpa using compound)]
      exact List.mem_singleton.2 rfl
    by_cases unit : expanded = .bottom
    · subst unit
      rcases Relation.ReflTransGen.cases_head reached with rfl | ⟨_, step, _⟩
      · exact Or.inr ⟨rfl, Or.inr rfl⟩
      · cases step
    · exact Or.inl ((further expanded isLeaf unit).trans reached)

/-- What an expanded type leads to, the type itself leads to as well, apart from the expanded type if that
is a union or the word that adds nothing to unions. -/
theorem Stops.reaches_or {expanded : Ty} (stops : env.Stops selfType t expanded) (normal : expanded.IsNormal)
    (reached : env.Reaches selfType expanded u) :
    env.Reaches selfType t u ∨
      (u = expanded ∧ (expanded.isCompound .union = true ∨ expanded = .bottom)) := by
  obtain ⟨stop, way, expands, _⟩ := stops
  exact (expands.reaches_or normal reached).imp_left way.trans

end Environment

namespace Analysis

variable {a : Analysis} {receivers : List Ty}

theorem expandTo_ends (acyclic : a.env.arena.Acyclic) (selfType : Ty) (depth : Nat) (path : List Ty)
    (t : Ty) :
    Ends (Session.OnWay a receivers) (a.expandTo refusing depth path t) (a.env.Expands selfType t)
      (a.env.Recurs selfType path t) := by
  induction depth generalizing path t with
  | zero => exact Ends.throw (Environment.recurs_of_ne nofun)
  | succ depth ih =>
    refine Ty.recurse_spec (P := fun t x => Ends (Session.OnWay a receivers) x
      (a.env.Expands selfType t) (a.env.Recurs selfType path t)) (fun s f each => ?_) t
    cases s with
    | applied head name args =>
      cases head with
      | ofAlias =>
        have isAlias : (Ty.aliasOf name args).IsAlias := ⟨name, args, rfl⟩
        refine Ends.guarded (fun onWay u same => ?_) fun isNew => ?_
        · obtain rfl := Error.recursiveAlias.inj same
          exact ⟨isAlias, Or.inr ⟨onWay, Relation.ReflTransGen.refl⟩⟩
        · refine ((ends_unfold acyclic name).imp (fun _ declared => declared) fun e other =>
            Environment.recurs_of_ne other).bind fun body declared => ?_
          refine (ih (.aliasOf name args :: path) body).imp (fun _ expands =>
            expands.alias declared (isDeclarable_aliasType declared)) fun e recurs => ?_
          exact recurs.close isAlias fun v _ back =>
            Relation.TransGen.head' (Environment.Step.ofAlias declared) back
      | _ => exact Ends.pure (Environment.Expands.self rfl fun ⟨_, _, same⟩ => nomatch same)
    | compound connective members =>
      cases connective with
      | union =>
        have parts : Ends (Session.OnWay a receivers) (members.mapM f)
            (List.Forall₂ (a.env.Expands selfType) members)
            (a.env.Recurs selfType path ⟨.compound .union members⟩) :=
          Ends.mapM members fun u isMember => (each u isMember).imp (fun _ expands => expands)
            fun _ recurs => recurs.step (Environment.Step.ofMember isMember)
        show Ends _ ((members.map f).mapM id >>= _) _ _
        rw [List.mapM_map]
        exact parts.bind fun es pairs => Ends.pure (Environment.Expands.union pairs)
      | intersection =>
        exact Ends.pure (Environment.Expands.self rfl fun ⟨_, _, same⟩ => nomatch same)
    | _ => exact Ends.pure (Environment.Expands.self rfl fun ⟨_, _, same⟩ => nomatch same)

/-- **The bound of following aliases does not matter**, nor what is done at the bound. -/
theorem expandDeep_same (acyclic : a.env.arena.Acyclic) (last : List Ty → Ty → AnalysisM Ty)
    {depth : Nat} (enough : a.env.aliasBound < depth) (t : Ty) :
    SameOn (Session.OnWay a receivers) (a.expandTo last depth [] t) (a.expandDeep t) := by
  have few : a.env.unseen [] + t.excess < a.env.aliasBound + 1 := by
    have aliases := a.env.unseen_le_length []
    have one := t.excess_le_one
    unfold Environment.aliasBound
    omega
  obtain ⟨more, rfl⟩ := Nat.exists_eq_add_of_le enough
  rw [expandDeep, expandWithin_eq_expandTo, expandTo_add]
  exact (expandTo_same acyclic _ few).trans (expandTo_same acyclic _ few).symm

/-- **The two outcomes of following aliases**: an expanded type, or an alias on a circle. -/
theorem expandDeep_ends (acyclic : a.env.arena.Acyclic) (selfType t : Ty) :
    Ends (Session.OnWay a receivers) (a.expandDeep t) (a.env.Expands selfType t)
      (a.env.Recurs selfType [] t) :=
  (expandDeep_same acyclic refusing (Nat.lt_succ_self _) t).symm.ends
    (expandTo_ends acyclic selfType _ [] t)

/-! ### Where following aliases stops -/

theorem expandTo_stops (acyclic : a.env.arena.Acyclic) (selfType : Ty) (depth : Nat) (path : List Ty)
    (t : Ty) :
    Ends (Session.OnWay a receivers) (a.expandTo refusing depth path t) (a.env.Stops selfType t)
      fun _ => True := by
  induction depth generalizing path t with
  | zero => exact Ends.throw trivial
  | succ depth ih =>
    have expands : Ends (Session.OnWay a receivers) (a.expandTo refusing (depth + 1) path t)
        (a.env.Expands selfType t) (a.env.Recurs selfType path t) := expandTo_ends acyclic _ _ _ _
    obtain ⟨s⟩ := t
    have layer : a.expandTo refusing (depth + 1) path ⟨s⟩ =
        a.expandLayer (a.expandTo refusing depth) path ⟨s⟩
          (s.map (Ty.recurse (a.expandLayer (a.expandTo refusing depth) path))) := by
      show Ty.recurse (a.expandLayer (a.expandTo refusing depth) path) ⟨s⟩ = _
      rw [Ty.recurse_node]
    cases s with
    | applied head name args =>
      cases head with
      | ofAlias =>
        rw [layer]
        refine Ends.guarded (fun _ => trivial) fun _ => ?_
        refine ((ends_unfold acyclic name).imp (fun _ declared => declared) fun _ _ => trivial).bind
          fun body declared => ?_
        refine (ih (.aliasOf name args :: path) body).imp (fun _ ⟨stop, reached, stops⟩ => ?_)
          fun _ stays => stays
        exact ⟨stop, Relation.ReflTransGen.head (Environment.Step.ofAlias declared) reached, stops⟩
      | _ =>
        rw [layer]
        exact Ends.pure (Environment.Stops.self rfl fun ⟨_, _, same⟩ => nomatch same)
    | compound connective members =>
      cases connective with
      | union =>
        refine expands.imp (fun _ expands => ?_) fun _ _ => trivial
        exact ⟨_, Relation.ReflTransGen.refl, expands, nofun⟩
      | intersection =>
        rw [layer]
        exact Ends.pure (Environment.Stops.self rfl fun ⟨_, _, same⟩ => nomatch same)
    | _ =>
      rw [layer]
      exact Ends.pure (Environment.Stops.self rfl fun ⟨_, _, same⟩ => nomatch same)

/-- **Where following aliases stops.** -/
theorem expandDeep_stops (acyclic : a.env.arena.Acyclic) (selfType t : Ty) :
    Ends (Session.OnWay a receivers) (a.expandDeep t) (a.env.Stops selfType t) fun _ => True :=
  (expandDeep_same acyclic refusing (Nat.lt_succ_self _) t).symm.ends
    (expandTo_stops acyclic selfType _ [] t)

end Analysis

end SignatureAlgebra
