/-
**A relative name means the innermost declaration.**

What is declared in an environment are the names that were declared on the way to it: methods are defined and
inherited under names that are declared already. A relative name is continued from the first segments of
the namespace it stands in, from all of them at first and then from one fewer at a time, so the first
declared name that is met is the one with the most segments.

* `Change.declaredName?`, `Environment.isDeclared_built` — what is declared after any changes.
* `Change.declaredClass?`, `Environment.declaredClass?_built` — the classes and modules among it;
  `Environment.isSome_class?_built` — which names they have.
* `TypeName.within`, `TypeName.Innermost` — the names that are tried, and the one that counts.
* `Environment.innermost_find?` — trying the names from the innermost on.
* `Environment.resolve?_built` — what every name means in every namespace.
-/
import SignatureAlgebra.Proofs.Environment.Changes
import SignatureAlgebra.Proofs.Environment.Resolution

namespace SignatureAlgebra

/-! ### What is declared -/

/-- The name under which a change declares something, if it does. -/
def Change.declaredName? : Change → Option TypeName
  | .declareClass name _ _ => some name
  | .declareInterface name _ => some name
  | .declareAlias name _ => some name
  | .alloc _ => none
  | .defineMethod _ => none
  | .inheritMethods _ _ _ => none

/-- The form and the type parameters with which a change declares a class or module of that name, if it does. -/
def Change.declaredClass? (name : TypeName) : Change → Option (ClassForm × List Name)
  | .declareClass declared form typeParams => if name = declared then some (form, typeParams) else none
  | .declareInterface _ _ => none
  | .declareAlias _ _ => none
  | .alloc _ => none
  | .defineMethod _ => none
  | .inheritMethods _ _ _ => none

namespace Environment

variable {env next : Environment}

theorem isDeclared_eq (env : Environment) (name : TypeName) :
    env.isDeclared name =
      ((env.classForm? name).isSome || (env.definitionOf (.interface name)).isOk ||
        (env.aliases.lookup name).isSome) := by
  have interface : (env.interfaces.lookup name).isSome = (env.interfaceDefinition name).isOk := by
    unfold interfaceDefinition
    cases env.interfaces.lookup name with
    | none => rfl
    | some _ => rfl
  rw [isDeclared, interface, classForm?, Option.isSome_map]
  rfl

theorem isSome_lookup_entered {α : Type} (entries : List (TypeName × α)) (declared name : TypeName)
    (value : α) :
    (((declared, value) :: entries).lookup name).isSome = true ↔
      some declared = some name ∨ (entries.lookup name).isSome = true := by
  rw [lookup_entered, Option.some_inj]
  by_cases same : name = declared
  · rw [if_pos same]
    exact iff_of_true rfl (Or.inl same.symm)
  · rw [if_neg same]
    exact (or_iff_right (Ne.symm same)).symm

/-- Where one definition changes, nothing is declared that was not. -/
theorem Edits.isDeclared {holder : Holder} {d d' : Definition} (edits : env.Edits holder d d' next)
    (name : TypeName) : next.isDeclared name = env.isDeclared name := by
  have interface : (next.definitionOf (.interface name)).isOk =
      (env.definitionOf (.interface name)).isOk := by
    rw [edits.definitions]
    by_cases here : Holder.interface name = holder
    · rw [if_pos here, here, edits.found]
      rfl
    · rw [if_neg here]
  rw [isDeclared_eq, isDeclared_eq, edits.classForms, edits.aliases, interface]

/-- What is declared after one more change: its name, if it declares one, and what was declared before. -/
theorem isDeclared_result {change : Change} (made : change.result env = .ok next) (name : TypeName) :
    next.isDeclared name = true ↔ change.declaredName? = some name ∨ env.isDeclared name = true := by
  cases change with
  | alloc node =>
    obtain rfl := Except.ok.inj made
    exact (or_iff_right (Option.some_ne_none name).symm).symm
  | declareClass declared form typeParams =>
    obtain rfl := Except.ok.inj made
    simp only [isDeclared, declareClass, Bool.or_eq_true, isSome_lookup_entered, Change.declaredName?]
    tauto
  | declareInterface declared typeParams =>
    obtain rfl := Except.ok.inj made
    simp only [isDeclared, declareInterface, Bool.or_eq_true, isSome_lookup_entered, Change.declaredName?]
    tauto
  | declareAlias declared body =>
    obtain rfl := Except.ok.inj made
    simp only [isDeclared, declareAlias, Bool.or_eq_true, isSome_lookup_entered, Change.declaredName?]
    tauto
  | defineMethod method =>
    obtain ⟨definition, found, rfl⟩ := defineMethod_eq made
    rw [(edits_setMembersOf found (definition.typeParams_define _)).isDeclared]
    exact (or_iff_right (Option.some_ne_none name).symm).symm
  | inheritMethods source target level =>
    obtain ⟨inherited, definition, _, found, rfl⟩ := inheritMethods_eq made
    rw [(edits_setMembersOf found (definition.typeParams_inherit inherited.members)).isDeclared]
    exact (or_iff_right (Option.some_ne_none name).symm).symm

/-- A change that declares something is never refused. -/
theorem declares_nothing_of_refused {change : Change} {e : Error} (refused : change.result env = .error e) :
    change.declaredName? = none ∧ ∀ name, change.declaredClass? name = none := by
  cases change with
  | declareClass | declareInterface | declareAlias => cases refused
  | _ => exact ⟨rfl, fun _ => rfl⟩

theorem isDeclared_make (env : Environment) (change : Change) (name : TypeName) :
    (change.make env).2.isDeclared name = true ↔
      change.declaredName? = some name ∨ env.isDeclared name = true := by
  rw [Change.make_eq]
  cases made : change.result env with
  | ok next => exact isDeclared_result made name
  | error e =>
    rw [(declares_nothing_of_refused made).1]
    exact (or_iff_right (Option.some_ne_none name).symm).symm

/-- **What is declared after any changes** are the names that they declare. -/
theorem isDeclared_built (arenaId : Nat) (changes : List Change) (name : TypeName) :
    (built arenaId changes).isDeclared name = true ↔
      ∃ change ∈ changes, change.declaredName? = some name := by
  induction changes with
  | nil => exact ⟨(nomatch ·), fun ⟨_, isChange, _⟩ => nomatch isChange⟩
  | cons change earlier ih => rw [built, isDeclared_make, ih, List.exists_mem_cons_iff]

/-! ### The classes and modules among it -/

/-- The form and the type parameters of a class or module. -/
def declaredClass? (env : Environment) (name : TypeName) : Option (ClassForm × List Name) :=
  (env.class? name).map fun entry => (entry.form, entry.instances.typeParams)

/-- Where one definition changes, every class keeps its form and its type parameters. -/
theorem declaredClass?_setMembersOf {owner : TypeName} {level : MemberLevel} {d d' : Definition}
    (found : env.membersOf owner level = .ok d) (kept : d'.typeParams = d.typeParams) (name : TypeName) :
    (env.setMembersOf owner level d').declaredClass? name = env.declaredClass? name := by
  unfold membersOf at found
  unfold setMembersOf
  cases declared : env.class? owner with
  | none => rfl
  | some entry =>
    rw [declared] at found
    have declared' := declared
    unfold class? at declared'
    by_cases here : name = owner
    · subst here
      cases level with
      | ofInstance =>
        obtain rfl : entry.instances = d := Except.ok.inj found
        simp [declaredClass?, class?, declared', kept]
      | ofSingleton => simp [declaredClass?, class?, declared']
    · cases level <;> simp [declaredClass?, class?, lookup_entered, here]

/-- The classes after one more change: the one that it declares, and before it those that there were. -/
theorem declaredClass?_result {change : Change} (made : change.result env = .ok next) (name : TypeName) :
    next.declaredClass? name = (change.declaredClass? name).or (env.declaredClass? name) := by
  cases change with
  | declareClass declared form typeParams =>
    obtain rfl := Except.ok.inj made
    by_cases here : name = declared <;>
      simp [declaredClass?, class?, declareClass, lookup_entered, Change.declaredClass?, here]
  | defineMethod method =>
    obtain ⟨definition, found, rfl⟩ := defineMethod_eq made
    exact declaredClass?_setMembersOf found (definition.typeParams_define _) name
  | inheritMethods source target level =>
    obtain ⟨inherited, definition, _, found, rfl⟩ := inheritMethods_eq made
    exact declaredClass?_setMembersOf found (definition.typeParams_inherit inherited.members) name
  | _ =>
    obtain rfl := Except.ok.inj made
    rfl

/-- **The classes and modules after any changes** are those that were declared, each as it was the last time;
the list of changes begins with the last one. -/
theorem declaredClass?_built (arenaId : Nat) (changes : List Change) (name : TypeName) :
    (built arenaId changes).declaredClass? name = changes.findSome? (Change.declaredClass? name) := by
  induction changes with
  | nil => rfl
  | cons change earlier ih =>
    rw [built, Change.make_eq, List.findSome?_cons]
    cases outcome : change.result (built arenaId earlier) with
    | ok next =>
      rw [declaredClass?_result outcome name, ih]
      cases change.declaredClass? name <;> rfl
    | error e => rw [(declares_nothing_of_refused outcome).2 name, ih]

/-- After any changes a name is a class or module exactly if one of them declares it as such. -/
theorem isSome_class?_built (arenaId : Nat) (changes : List Change) (name : TypeName) :
    ((built arenaId changes).class? name).isSome ↔
      ∃ form typeParams, Change.declareClass name form typeParams ∈ changes := by
  have isClass : ((built arenaId changes).class? name).isSome =
      (changes.findSome? (Change.declaredClass? name)).isSome := by
    rw [← declaredClass?_built arenaId, declaredClass?, Option.isSome_map]
  rw [isClass, List.findSome?_isSome_iff]
  constructor
  · rintro ⟨change, isChange, declares⟩
    cases change with
    | declareClass declared form typeParams =>
      rw [Change.declaredClass?, Option.isSome_ite] at declares
      exact ⟨form, typeParams, declares ▸ isChange⟩
    | _ => cases declares
  · rintro ⟨form, typeParams, isChange⟩
    exact ⟨_, isChange, Option.isSome_ite.2 rfl⟩

end Environment

/-! ### The names that are tried -/

namespace TypeName

/-- A name inside the first `count` segments of a namespace, counted from the root. -/
def within (name : TypeName) (context : Namespace) (count : Nat) : TypeName :=
  ⟨⟨context.path.take count ++ name.scope.path, true⟩, name.name⟩

/-- **The innermost declaration that a relative name can mean**: of the names inside at most `limit`
segments of a namespace, the declared one with the most segments, if any is declared. -/
inductive Innermost (declared : TypeName → Prop) (name : TypeName) (context : Namespace) (limit : Nat) :
    Option TypeName → Prop where
  | found {count : Nat} (reached : count ≤ limit) (isDeclared : declared (name.within context count))
    (further : ∀ inner, count < inner → inner ≤ limit → ¬ declared (name.within context inner)) :
    Innermost declared name context limit (some (name.within context count))
  | nowhere (nothing : ∀ count ≤ limit, ¬ declared (name.within context count)) :
    Innermost declared name context limit none

theorem under_take {name : TypeName} (relative : name.isAbsolute = false) (context : Namespace)
    (count : Nat) :
    name.under ⟨context.toAbsolute.path.take count, context.toAbsolute.absolute⟩ =
      name.within context count := by
  have isRelative : ¬ name.scope.absolute = true := ne_true_of_eq_false relative
  rw [under, Namespace.under, if_neg isRelative]
  rfl

namespace Innermost

variable {declared : TypeName → Prop} {name : TypeName} {context : Namespace} {limit : Nat}
  {result : Option TypeName}

/-- With all the segments that are allowed, a name cannot be further in. -/
theorem outright (isDeclared : declared (name.within context limit)) :
    name.Innermost declared context limit (some (name.within context limit)) :=
  .found (Nat.le_refl limit) isDeclared fun _ more atMost => absurd atMost (Nat.not_le_of_lt more)

/-- A name that is not declared changes nothing. -/
theorem widen (missing : ¬ declared (name.within context (limit + 1)))
    (innermost : name.Innermost declared context limit result) :
    name.Innermost declared context (limit + 1) result := by
  cases innermost with
  | found reached isDeclared further =>
    refine .found (Nat.le_succ_of_le reached) isDeclared fun inner more atMost => ?_
    rcases Nat.le_succ_iff.1 atMost with earlier | rfl
    · exact further inner more earlier
    · exact missing
  | nowhere nothing =>
    refine .nowhere fun inner atMost => ?_
    rcases Nat.le_succ_iff.1 atMost with earlier | rfl
    · exact nothing inner earlier
    · exact missing

end Innermost

end TypeName

/-! ### Trying them -/

namespace Environment

/-- **Trying the names from the innermost on**: the first that is declared is the one that counts. -/
theorem innermost_find? (declared : TypeName → Bool) {name : TypeName} (relative : name.isAbsolute = false)
    (context : Namespace) (limit : Nat) :
    name.Innermost (declared · = true) context limit
      (((context.toAbsolute.ascendFrom limit).map name.under).find? declared) := by
  induction limit with
  | zero =>
    have outermost := TypeName.under_take relative context 0
    rw [List.take_zero] at outermost
    rw [Namespace.ascendFrom, List.map_singleton, outermost]
    cases isDeclared : declared (name.within context 0) with
    | true =>
      rw [List.find?_cons_of_pos isDeclared]
      exact .outright isDeclared
    | false =>
      rw [List.find?_cons_of_neg (ne_true_of_eq_false isDeclared)]
      refine .nowhere fun count atMost => ?_
      exact Nat.le_zero.1 atMost ▸ ne_true_of_eq_false isDeclared
  | succ limit ih =>
    rw [Namespace.ascendFrom, List.map_cons, TypeName.under_take relative context (limit + 1)]
    cases isDeclared : declared (name.within context (limit + 1)) with
    | true =>
      rw [List.find?_cons_of_pos isDeclared]
      exact .outright isDeclared
    | false =>
      rw [List.find?_cons_of_neg (ne_true_of_eq_false isDeclared)]
      exact .widen (ne_true_of_eq_false isDeclared) ih

/-- What a name means is declared. -/
theorem isDeclared_of_resolve? {env : Environment} {name found : TypeName} {context : Namespace}
    (resolved : env.resolve? name context = some found) : env.isDeclared found = true := by
  cases written : name.isAbsolute with
  | true =>
    rw [resolve?_of_isAbsolute written] at resolved
    obtain ⟨isDeclared, same⟩ := Option.ite_none_right_eq_some.1 resolved
    exact Option.some.inj same ▸ isDeclared
  | false =>
    rw [resolve?, written] at resolved
    exact List.find?_some resolved

/-- **What every name means in every namespace**, after any changes. An absolute name means itself if it is
declared, and else nothing. A relative name means the innermost declaration: it is continued from the first
segments of the namespace, of as many as there are such that the name is declared, and it means nothing if
there are none. What a name means is absolute and declared, and means itself everywhere. -/
theorem resolve?_built (arenaId : Nat) (changes : List Change) :
    let env := built arenaId changes
    let declared := fun name => ∃ change ∈ changes, change.declaredName? = some name
    ∀ (name : TypeName) (context : Namespace),
      (name.isAbsolute = true →
        ∀ found, env.resolve? name context = some found ↔ found = name ∧ declared name) ∧
      (name.isAbsolute = false →
        name.Innermost declared context context.path.length (env.resolve? name context)) ∧
      ∀ found, env.resolve? name context = some found →
        found.isAbsolute = true ∧ declared found ∧ ∀ other, env.resolve? found other = some found := by
  intro env declared name context
  have isDeclared : (env.isDeclared · = true) = declared :=
    funext fun name => propext (isDeclared_built arenaId changes name)
  refine ⟨fun absolute found => ?_, fun relative => ?_, fun found resolved => ?_⟩
  · rw [resolve?_of_isAbsolute absolute, Option.ite_none_right_eq_some, Option.some_inj, ← isDeclared]
    exact and_comm.trans (and_congr_left' eq_comm)
  · rw [resolve?, relative, ← isDeclared]
    exact innermost_find? env.isDeclared relative context context.path.length
  · have absolute := isAbsolute_of_resolve? resolved
    have known := isDeclared_of_resolve? resolved
    refine ⟨absolute, isDeclared ▸ known, fun other => ?_⟩
    rw [resolve?_of_isAbsolute absolute, if_pos known]

/-- Inside a nested namespace a name means the declaration that is further in, not the one at the root. -/
theorem resolve?_built_nested :
    let outer : Name := ⟨26⟩
    let inner : Name := ⟨27⟩
    let nested : TypeName := ⟨⟨[outer], true⟩, inner⟩
    let changes := [.declareClass (.topLevel inner) .ofClass [], .declareInterface nested []]
    let context : Namespace := ⟨[outer, outer], false⟩
    (built 0 changes).resolve? (.simple inner) context = some nested ∧
      (built 0 changes).resolve? nested .root = some nested := by
  intro outer inner nested changes context
  have resolved : (built 0 changes).resolve? (.simple inner) context = some nested := by decide
  obtain ⟨_, _, means⟩ := resolve?_built 0 changes (.simple inner) context
  obtain ⟨_, _, everywhere⟩ := means nested resolved
  exact ⟨resolved, everywhere .root⟩

end Environment

end SignatureAlgebra
