/-
**Making the names in a type absolute.**

The names of a type are made absolute on its declaration: the type is declared in an arena of its own, its
declaration copied with other names, and the copy turned into a type. All of this is the same as putting other
names into the type, which is built again at the same time; building it before does not matter, since names
are not merged with anything but themselves.

* `Ty.replace_normalize` — replacing in a type that was built again is replacing in the type as written.
* `Ty.renameTypes_congr`, `Ty.renameTypes_eq_normalize` — which names matter, and when none does.
* `Analysis.resolveToAbsolute_eq` — through the arena and back.
* `Analysis.resolveToAbsolute_renames` — the statement.
-/
import SignatureAlgebra.Proofs.Conversion.Refusals
import SignatureAlgebra.Proofs.Conversion.RenamedNames
import SignatureAlgebra.Proofs.Environment.Resolution
import SignatureAlgebra.Proofs.Ty.Vocabulary

namespace SignatureAlgebra

/-! ### Other names in a type -/

namespace Ty

/-- **Building a type again before replacing in it** changes nothing, if only solid types are put in place of
names. -/
theorem replace_normalize {r : Replacement} (normal : r.IsNormal) (solid : r.IsSolid) (t : Ty) :
    t.normalize.replace r = t.replace r := by
  induction t using Ty.induction with
  | step t ih =>
    obtain ⟨s⟩ := t
    have twice : (s.map normalize).map (replace r) = s.map (replace r) :=
      (Shape.map_map _ _ s).trans (Shape.map_congr ih)
    have built : normalize ⟨s⟩ = Replacement.identity.build (s.map normalize) := replace_node _ s
    rw [built, replace_node r s]
    cases s with
    | compound c members =>
      have members' : (members.map normalize).map (replace r) = members.map (replace r) :=
        (Shape.compound.inj twice).2
      show (combine c (members.map normalize)).replace r = combine c (members.map (replace r))
      rw [replace_combine_of_solid normal solid, members']
      intro u isMember
      obtain ⟨t, _, rfl⟩ := List.mem_map.1 isMember
      exact isNormal_replace Replacement.isNormal_identity t
    | _ => exact (replace_node r _).trans (congrArg r.build twice)

theorem named_mem_mentions {t : Ty} {name : TypeName} :
    .named name ∈ t.mentions ↔
      singletonOf name ∈ t.subterms ∨ ∃ head args, ⟨.applied head name args⟩ ∈ t.subterms := by
  constructor
  · intro mentioned
    obtain ⟨⟨s⟩, occurs, same⟩ := List.mem_filterMap.1 mentioned
    cases s with
    | singleton other =>
      cases same
      exact Or.inl occurs
    | applied head other args =>
      cases same
      exact Or.inr ⟨head, args, occurs⟩
    | _ => cases same
  · rintro (occurs | ⟨head, args, occurs⟩)
    · exact List.mem_filterMap.2 ⟨_, occurs, rfl⟩
    · exact List.mem_filterMap.2 ⟨_, occurs, rfl⟩

theorem mem_mentions_of_mem_children {t u : Ty} (isChild : u ∈ t.children) {m : Mention}
    (mentioned : m ∈ u.mentions) : m ∈ t.mentions := by
  obtain ⟨w, occurs, same⟩ := List.mem_filterMap.1 mentioned
  exact List.mem_filterMap.2 ⟨w, mem_subterms_iff.2 (Or.inr ⟨u, isChild, occurs⟩), same⟩

/-- **Other names that agree on the names in a type** put the same into it. -/
theorem renameTypes_congr {f g : TypeName → TypeName} {t : Ty}
    (same : ∀ name, .named name ∈ t.mentions → f name = g name) : t.renameTypes f = t.renameTypes g := by
  induction t using Ty.induction with
  | step t ih =>
    obtain ⟨s⟩ := t
    have each : ∀ u ∈ s.toList, u.renameTypes f = u.renameTypes g := fun u isPart =>
      ih u isPart fun name mentioned => same name (mem_mentions_of_mem_children isPart mentioned)
    have below : s.map (renameTypes f) = s.map (renameTypes g) := Shape.map_congr each
    have built : ∀ h : TypeName → TypeName,
        renameTypes h ⟨s⟩ = (Replacement.ofTypeNames h).build (s.map (renameTypes h)) := fun h =>
      replace_node _ s
    rw [built, built, below]
    cases s with
    | singleton name =>
      exact congrArg singletonOf (same name (named_mem_mentions.2 (Or.inl (self_mem_subterms _))))
    | applied head name args =>
      have here : f name = g name :=
        same name (named_mem_mentions.2 (Or.inr ⟨head, args, self_mem_subterms _⟩))
      exact congrArg (fun name => (⟨.applied head name (args.map (renameTypes g))⟩ : Ty)) here
    | _ => rfl

/-- Names that stay are not touched: a type in which all do is only built again. -/
theorem renameTypes_eq_normalize {f : TypeName → TypeName} {t : Ty}
    (stays : ∀ name, .named name ∈ t.mentions → f name = name) : t.renameTypes f = t.normalize :=
  renameTypes_congr stays

/-- **The names in a type** into which other names were put are other names. -/
theorem exists_of_named_mem_renameTypes {f : TypeName → TypeName} {t : Ty} {name : TypeName}
    (mentioned : .named name ∈ (t.renameTypes f).mentions) : ∃ old, f old = name := by
  let given : Vocabulary := { Vocabulary.unlimited with
    singleton := fun name => ∃ old, f old = name
    applied := fun _ name _ => ∃ old, f old = name }
  have anything : t.IsWithin .unlimited := by
    rintro ⟨s⟩ _
    cases s with
    | compound c members => exact False.elim
    | _ => exact trivial
  have carries : (Replacement.ofTypeNames f).Carries .unlimited given := {
    var := fun _ _ => isWithin_of_children trivial rfl
    placeholder := fun _ _ => isWithin_of_children trivial rfl
    singleton := fun old _ => ⟨old, rfl⟩
    applied := fun _ old _ _ => ⟨old, rfl⟩ }
  have within : (t.renameTypes f).IsWithin given := isWithin_replace carries anything
  rcases named_mem_mentions.1 mentioned with occurs | ⟨head, args, occurs⟩
  · exact within _ occurs
  · exact within _ occurs

end Ty

/-! ### Through the arena and back -/

/-- A copy that only has other names stands for the type with these names. -/
theorem Arena.toTy_copy {arena : Arena} (acyclic : arena.Acyclic) {id : NodeId} (known : id < arena.size)
    (f : TypeName → TypeName) :
    let copied := Id.run (mapNames (M := Id) f id arena)
    copied.2.toTy copied.1 = (arena.toTy id).renameTypes f := by
  intro copied
  obtain ⟨grown, stands⟩ :=
    Copies.of_id (copiesTree_mapNames (M := Id) f acyclic known arena (Extends.refl arena))
  calc copied.2.toTy copied.1
      = ((arena.tree id).traverseNames (M := Id) f).toTy :=
        congrArg DeclaredTree.toTy (stands.read copied.2 (Extends.refl _) (grown.acyclic acyclic))
    _ = ((arena.tree id).mapNames f).toTy :=
        congrArg DeclaredTree.toTy ((arena.tree id).traverseNames_pure (M := Id) f)
    _ = (arena.toTy id).renameTypes f := DeclaredTree.toTy_renamed f _

namespace Analysis

variable {a : Analysis} {t : Ty}

/-- **Making names absolute is putting other names into the type**, which is built again. -/
theorem resolveToAbsolute_eq (declarable : t.IsDeclarable) (context : Namespace) :
    a.resolveToAbsolute t context = .ok (t.renameTypes (a.absoluteName context)) := by
  have fresh : (Arena.empty 0).Acyclic := Arena.acyclic_empty 0
  obtain ⟨id, arena, run, grown, known, isTy⟩ := t.declare_run declarable fresh
  have renamed := Arena.toTy_copy (grown.acyclic fresh) known (a.absoluteName context)
  rw [isTy, Ty.renameTypes, Ty.replace_normalize (Replacement.isNormal_ofTypeNames _)
    (Replacement.isSolid_ofTypeNames _)] at renamed
  rw [resolveToAbsolute, run]
  exact congrArg Except.ok renamed

theorem resolveToAbsolute_of_refusal? {e : Error} (refused : t.refusal? = some e) (context : Namespace) :
    a.resolveToAbsolute t context = .error e := by
  rcases t.refuses_declare (.empty 0) with ⟨reason, _⟩ | ⟨e', reason, run⟩
  · cases refused.symm.trans reason
  · obtain rfl : e = e' := Option.some.inj (refused.symm.trans reason)
    have outcome : t.declare (.empty 0) = (.error e, (t.declare (.empty 0)).2) := Prod.ext run rfl
    rw [resolveToAbsolute, outcome]

/-- No alias in the answer has arguments. -/
theorem isDeclarable_resolveToAbsolute {context : Namespace} {absolute : Ty}
    (answered : a.resolveToAbsolute t context = .ok absolute) : absolute.IsDeclarable := by
  unfold resolveToAbsolute at answered
  split at answered
  · cases answered
  · obtain rfl := Except.ok.inj answered
    exact Arena.isDeclarable_toTy _ _

/-- **Making the names in a type absolute** is refused if and only if an alias in the type has arguments.
Otherwise every name in the type is replaced by what it means in the namespace, or is counted from the root if
it means nothing there, and the type is built again. All names in the answer are absolute, and making them
absolute again, in any namespace, gives the answer as it is. -/
theorem resolveToAbsolute_renames (a : Analysis) (t : Ty) (context : Namespace) :
    ((∃ e, a.resolveToAbsolute t context = .error e) ↔ ∃ u ∈ t.subterms, u.aliasArguments ≠ []) ∧
    (t.IsDeclarable → ∃ absolute, a.resolveToAbsolute t context = .ok absolute ∧
      absolute = t.renameTypes (fun name => (a.env.resolve? name context).getD name.toAbsolute) ∧
      (∀ name, .named name ∈ absolute.mentions → name.isAbsolute = true) ∧
      ∀ context', a.resolveToAbsolute absolute context' = .ok absolute) := by
  constructor
  · constructor
    · rintro ⟨e, refused⟩
      by_contra plain
      push Not at plain
      cases (resolveToAbsolute_eq plain context).symm.trans refused
    · rintro ⟨u, occurs, arguments⟩
      cases reason : t.refusal? with
      | none => exact absurd (Ty.refusal?_eq_none_iff.1 reason u occurs) arguments
      | some e => exact ⟨e, resolveToAbsolute_of_refusal? reason context⟩
  · intro declarable
    have answered := resolveToAbsolute_eq (a := a) declarable context
    have isAbsolute : ∀ name, .named name ∈ (t.renameTypes (a.absoluteName context)).mentions →
        name.isAbsolute = true := by
      intro name mentioned
      obtain ⟨old, rfl⟩ := Ty.exists_of_named_mem_renameTypes mentioned
      exact a.isAbsolute_absoluteName context old
    refine ⟨_, answered, rfl, isAbsolute, fun context' => ?_⟩
    rw [resolveToAbsolute_eq (isDeclarable_resolveToAbsolute answered)]
    -- The answer is in normal form, and its names stay as they are.
    refine congrArg Except.ok ((Ty.renameTypes_eq_normalize fun name mentioned => ?_).trans ?_)
    · exact absoluteName_of_isAbsolute (isAbsolute name mentioned) context'
    · exact Ty.normalize_eq_self (Ty.isNormal_replace (Replacement.isNormal_ofTypeNames _) t)

/-- In the namespace `::A`, in which there is `::A::B` and no `C`: `B | (singleton(C) | ::A::B) | C` has a member
twice once its names are absolute; `C[B]` is refused. -/
theorem resolveToAbsolute_renames_nested :
    let inner : TypeName := ⟨⟨[⟨26⟩], true⟩, ⟨27⟩⟩
    let b : TypeName := .simple ⟨27⟩
    let c : TypeName := .simple ⟨28⟩
    let context : Namespace := ⟨[⟨26⟩], true⟩
    let a : Analysis := ⟨(Environment.empty 0).declareClass inner .ofClass [], .standard, .structural⟩
    let nested : Ty := ⟨.compound .union [.singletonOf c, .instanceOf inner []]⟩
    let t : Ty := ⟨.compound .union [.instanceOf b [], nested, .aliasOf c []]⟩
    let absolute : Ty :=
      ⟨.compound .union [.instanceOf inner [], .singletonOf (.topLevel ⟨28⟩), .aliasOf (.topLevel ⟨28⟩) []]⟩
    t.IsDeclarable ∧ a.resolveToAbsolute t context = .ok absolute ∧
      (∀ name, .named name ∈ absolute.mentions → name.isAbsolute = true) ∧
      a.resolveToAbsolute absolute .root = .ok absolute ∧
      ∃ e, a.resolveToAbsolute (.aliasOf c [.instanceOf b []]) context = .error e := by
  intro inner b c context a nested t absolute
  have declarable : t.IsDeclarable := by decide
  obtain ⟨answer, answered, isRenamed, isAbsolute, again⟩ := (resolveToAbsolute_renames a t context).2 declarable
  obtain rfl : answer = absolute := isRenamed.trans (by decide)
  refine ⟨declarable, answered, isAbsolute, again .root, ?_⟩
  refine (resolveToAbsolute_renames a (.aliasOf c [.instanceOf b []]) context).1.2 ?_
  exact ⟨_, Ty.self_mem_subterms _, nofun⟩

end Analysis

end SignatureAlgebra
