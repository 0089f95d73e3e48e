/-
**The places of a layer as a list.**

An action on the places of a layer does what it does on the list of them: it is done once for each place, in
reading order. What it gives is a layer of the same outline, with what it gave at the places; and a layer is
known by its outline, its type name and what stands at its places.

* `Params.inStep_toList`, `Shape.inStep_toList` — going through the places of parameters and of types.
* `Declared.outline` — a layer without its name and without what stands at its places;
  `Declared.eq_of_outline` — what a layer is known by.
* `Declared.traverse_eq`, `Declared.inStep_toList` — going through the places of a declared layer, after its
  name.
-/
import SignatureAlgebra.Declared.Tree
import SignatureAlgebra.Proofs.Declared.Traversal
import SignatureAlgebra.Proofs.InStep

namespace SignatureAlgebra

variable {α β γ : Type} {M : Type → Type} [Monad M]

/-! ### Types -/

section Types

variable [LawfulMonad M]

/-- A value under a key holds the value. -/
theorem inStep_keyed {κ : Type} (f : α → M β) (entry : κ × α) :
    InStep (fun entry' b => entry'.2 = b ∧ (entry'.1, ()) = (entry.1, ()))
      (do return (entry.1, ← f entry.2)) (f entry.2) :=
  (InStep.self (f entry.2)).map_left (fun b => (entry.1, b)) fun _ _ same => ⟨same, rfl⟩

theorem NameMap.inStep_values (f : α → M β) (m : NameMap α) :
    InStep (fun m' bs => m'.values = bs ∧ (m'.map fun _ => ()) = m.map fun _ => ()) (m.mapM f)
      (m.values.mapM f) :=
  (InStep.items (inStep_keyed f) m.gaps).map_left NameMap.mk fun _ _ related =>
    ⟨related.1, congrArg NameMap.mk related.2⟩

namespace Params

theorem inStep_rest (f : α → M β) (o : Option α) :
    InStep (fun o' bs => o'.toList = bs ∧ (o'.map fun _ => ()) = o.map fun _ => ()) (mapRestM f o)
      (o.toList.mapM f) := by
  cases o with
  | none => exact InStep.pure ⟨rfl, rfl⟩
  | some a =>
    rw [Option.toList_some, List.mapM_cons, List.mapM_nil]
    refine (InStep.self (f a)).bind fun b b' same => ?_
    rw [pure_bind]
    exact InStep.pure ⟨congrArg (fun b => [b]) same, rfl⟩

/-- **Going through parameters** is going through the list of what they hold. -/
theorem inStep_toList (f : α → M β) (p : Params α) :
    InStep (fun q bs => q.toList = bs ∧ q.shape = p.shape) (p.mapM f) (p.toList.mapM f) := by
  simp only [mapM, toList, List.mapM_append, bind_assoc, pure_bind]
  refine (InStep.list f p.required).bind fun _ _ required => ?_
  refine (InStep.list f p.optional).bind fun _ _ optional => ?_
  refine (inStep_rest f p.rest).bind fun _ _ rest => ?_
  refine (p.keywords.inStep_values f).bind fun _ _ names => ?_
  refine (p.optionalKeywords.inStep_values f).bind fun _ _ optionalNames => ?_
  refine (inStep_rest f p.restKeywords).bind fun _ _ restNames => InStep.pure ⟨?_, ?_⟩
  · simp only [required.1, optional.1, rest.1, names.1, optionalNames.1, restNames.1]
  · simp only [shape, map, required.2, optional.2, rest.2, names.2, optionalNames.2, restNames.2]

end Params

/-- **Going through the places of a type** is going through the list of what stands there. -/
theorem Shape.inStep_toList (f : α → M β) (s : Shape α) :
    InStep (fun s' bs => s'.toList = bs ∧ (s'.map fun _ => ()) = s.map fun _ => ()) (s.mapM f)
      (s.toList.mapM f) := by
  cases s with
  | applied head name args =>
    exact (InStep.list f args).map_left (Shape.applied head name) fun _ _ related =>
      ⟨related.1, congrArg (Shape.applied head name) related.2⟩
  | compound connective members =>
    exact (InStep.list f members).map_left (Shape.compound connective) fun _ _ related =>
      ⟨related.1, congrArg (Shape.compound connective) related.2⟩
  | tuple members =>
    exact (InStep.list f members).map_left Shape.tuple fun _ _ related =>
      ⟨related.1, congrArg Shape.tuple related.2⟩
  | record fields =>
    exact (InStep.items (inStep_keyed f) fields).map_left Shape.record fun _ _ related =>
      ⟨related.1, congrArg Shape.record related.2⟩
  | proc params result =>
    simp only [mapM, toList, List.mapM_append, List.mapM_cons, List.mapM_nil, bind_assoc, pure_bind]
    refine (Params.inStep_toList f params).bind fun _ _ inParams => ?_
    refine (InStep.self (f result)).bind fun _ _ inResult => InStep.pure ⟨?_, ?_⟩
    · simp only [inParams.1, inResult]
    · exact congrArg (Shape.proc · ()) inParams.2
  | _ => exact InStep.pure ⟨rfl, rfl⟩

/-! ### Declared types -/

theorem DeclaredParam.inStep_type (f : α → M β) (p : DeclaredParam α) :
    InStep (fun q b => q.type = b ∧ (q.map fun _ => ()) = p.map fun _ => ()) (p.mapM f) (f p.type) :=
  (InStep.self (f p.type)).map_left (DeclaredParam.mk p.label) fun _ _ same => ⟨same, rfl⟩

namespace DeclaredParams

theorem inStep_keyword (f : α → M β) (binding : Name × DeclaredParam α) :
    InStep (fun binding' b => binding'.2.type = b ∧
        (binding'.1, binding'.2.map fun _ => ()) = (binding.1, binding.2.map fun _ => ()))
      (mapKeywordM f binding) (f binding.2.type) :=
  (binding.2.inStep_type f).map_left (Prod.mk binding.1) fun _ _ related =>
    ⟨related.1, congrArg (Prod.mk binding.1) related.2⟩

theorem inStep_rest (f : α → M β) (o : Option (DeclaredParam α)) :
    InStep (fun o' bs => o'.toList.map DeclaredParam.type = bs ∧
        o'.map (DeclaredParam.map fun _ => ()) = o.map (DeclaredParam.map fun _ => ()))
      (Params.mapRestM (DeclaredParam.mapM f) o) ((o.toList.map DeclaredParam.type).mapM f) := by
  cases o with
  | none => exact InStep.pure ⟨rfl, rfl⟩
  | some p =>
    rw [Option.toList_some, List.map_singleton, List.mapM_cons, List.mapM_nil]
    refine (p.inStep_type f).bind fun q b related => ?_
    rw [pure_bind]
    exact InStep.pure ⟨congrArg (fun b => [b]) related.1, congrArg some related.2⟩

/-- **Going through declared parameters** is going through the list of what they hold. -/
theorem inStep_toList (f : α → M β) (p : DeclaredParams α) :
    InStep (fun q bs => q.toList = bs ∧ (q.map fun _ => ()) = p.map fun _ => ()) (p.mapM f)
      (p.toList.mapM f) := by
  simp only [mapM, toList, List.mapM_append, bind_assoc, pure_bind]
  refine (InStep.items (DeclaredParam.inStep_type f) p.required).bind fun _ _ required => ?_
  refine (InStep.items (DeclaredParam.inStep_type f) p.optional).bind fun _ _ optional => ?_
  refine (inStep_rest f p.rest).bind fun _ _ rest => ?_
  refine (InStep.items (DeclaredParam.inStep_type f) p.trailing).bind fun _ _ trailing => ?_
  refine (InStep.items (inStep_keyword f) p.keywords).bind fun _ _ names => ?_
  refine (InStep.items (inStep_keyword f) p.optionalKeywords).bind fun _ _ optionalNames => ?_
  refine (inStep_rest f p.restKeywords).bind fun _ _ restNames => InStep.pure ⟨?_, ?_⟩
  · simp only [required.1, optional.1, rest.1, trailing.1, names.1, optionalNames.1, restNames.1]
  · simp only [map, required.2, optional.2, rest.2, trailing.2, names.2, optionalNames.2, restNames.2]

end DeclaredParams

namespace Declared

/-- **Going through the places of a declared layer** is going through the list of what stands there. -/
theorem inStep_toList (f : α → M β) (d : Declared α) :
    InStep (fun d' bs => d'.toList = bs ∧ (d'.map fun _ => ()) = d.map fun _ => ()) (d.mapM f)
      (d.toList.mapM f) := by
  cases d with
  | classInstance name args =>
    simp only [mapM, traverse, pure_bind]
    exact (InStep.list f args).map_left (Declared.classInstance name) fun _ _ related =>
      ⟨related.1, congrArg (Declared.classInstance name) related.2⟩
  | interface name args =>
    simp only [mapM, traverse, pure_bind]
    exact (InStep.list f args).map_left (Declared.interface name) fun _ _ related =>
      ⟨related.1, congrArg (Declared.interface name) related.2⟩
  | compound connective members =>
    exact (InStep.list f members).map_left (Declared.compound connective) fun _ _ related =>
      ⟨related.1, congrArg (Declared.compound connective) related.2⟩
  | optional inner =>
    simp only [mapM, traverse, toList, List.mapM_cons, List.mapM_nil, pure_bind]
    refine (InStep.self (f inner)).bind fun _ _ same => InStep.pure ⟨?_, rfl⟩
    exact congrArg (fun b => [b]) same
  | tuple members =>
    exact (InStep.list f members).map_left Declared.tuple fun _ _ related =>
      ⟨related.1, congrArg Declared.tuple related.2⟩
  | record fields =>
    exact (InStep.items (inStep_keyed f) fields).map_left Declared.record fun _ _ related =>
      ⟨related.1, congrArg Declared.record related.2⟩
  | proc fn =>
    simp only [mapM, traverse, DeclaredFunction.mapM, toList, DeclaredFunction.toList, List.mapM_append,
      List.mapM_cons, List.mapM_nil, bind_assoc, pure_bind]
    refine (fn.params.inStep_toList f).bind fun _ _ inParams => ?_
    refine (InStep.self (f fn.result)).bind fun _ _ inResult => InStep.pure ⟨?_, ?_⟩
    · simp only [inParams.1, inResult]
    · exact congrArg (fun params => Declared.proc ⟨params, ()⟩) inParams.2
  | singleton name => simp only [mapM, traverse, pure_bind]; exact InStep.pure ⟨rfl, rfl⟩
  | aliasRef name => simp only [mapM, traverse, pure_bind]; exact InStep.pure ⟨rfl, rfl⟩
  | _ => exact InStep.pure ⟨rfl, rfl⟩

/-- Changes the type name of a layer by an action. -/
def renameM (rename : TypeName → M TypeName) : Declared α → M (Declared α)
  | singleton name => return singleton (← rename name)
  | classInstance name args => return classInstance (← rename name) args
  | interface name args => return interface (← rename name) args
  | aliasRef name => return aliasRef (← rename name)
  | d => return d

/-- Going through a layer is changing its name, then going through its places. -/
theorem traverse_eq (rename : TypeName → M TypeName) (f : α → M β) (d : Declared α) :
    d.traverse rename f = d.renameM rename >>= mapM f := by
  cases d <;> simp only [traverse, renameM, mapM, bind_assoc, pure_bind]

/-- A layer without its name and without what stands at its places. -/
def outline (d : Declared α) : Declared Unit := (d.map fun _ => ()).mapName fun _ => default

theorem inStep_renameM (rename : TypeName → M TypeName) (d : Declared α) :
    InStep (fun d' names => d'.typeName?.toList = names ∧ d'.toList = d.toList ∧ d'.outline = d.outline)
      (d.renameM rename) (d.typeName?.toList.mapM rename) := by
  have named : ∀ (name : TypeName) (build : TypeName → Declared α),
      (∀ new, (build new).typeName?.toList = [new] ∧ (build new).toList = d.toList ∧
        (build new).outline = d.outline) →
      InStep (fun d' names => d'.typeName?.toList = names ∧ d'.toList = d.toList ∧ d'.outline = d.outline)
        (do return build (← rename name)) ([name].mapM rename) := by
    intro name build built
    simp only [List.mapM_cons, List.mapM_nil, pure_bind]
    refine (InStep.self (rename name)).bind fun new _ same => InStep.pure ?_
    rw [← same]
    exact built new
  cases d with
  | singleton name => exact named name .singleton fun _ => ⟨rfl, rfl, rfl⟩
  | classInstance name args => exact named name (.classInstance · args) fun _ => ⟨rfl, rfl, rfl⟩
  | interface name args => exact named name (.interface · args) fun _ => ⟨rfl, rfl, rfl⟩
  | aliasRef name => exact named name .aliasRef fun _ => ⟨rfl, rfl, rfl⟩
  | _ => exact InStep.pure ⟨rfl, rfl, rfl⟩

end Declared

end Types

/-! ### What a layer is known by -/

/-- Lists are equal if all that is known of their members is. -/
theorem eq_of_map_eq {ι κ ρ : Type} {f : ι → κ} {g : ι → ρ} (known : ∀ i j, f i = f j → g i = g j → i = j) :
    ∀ {is js : List ι}, is.map f = js.map f → is.map g = js.map g → is = js
  | [], [], _, _ => rfl
  | [], _ :: _, first, _ | _ :: _, [], first, _ => by cases first
  | i :: is, j :: js, first, second => by
    obtain ⟨head, tail⟩ := List.cons.inj first
    obtain ⟨head', tail'⟩ := List.cons.inj second
    rw [known i j head head', eq_of_map_eq known tail tail']

theorem eq_of_keys {κ : Type} {entries entries' : List (κ × α)}
    (keys : (entries.map fun entry => (entry.1, ())) = entries'.map fun entry => (entry.1, ())) :
    entries.map Prod.snd = entries'.map Prod.snd → entries = entries' :=
  eq_of_map_eq (fun _ _ key value => Prod.ext (Prod.mk.inj key).1 value) keys

theorem NameMap.eq_of_form {m m' : NameMap α} (form : (m.map fun _ => ()) = m'.map fun _ => ())
    (same : m.values = m'.values) : m = m' := congrArg mk (eq_of_keys (mk.inj form) same)

/-- **Parameters are known by their shape and by what they hold.** -/
theorem Params.eq_of_shape {p q : Params α} (shape : p.shape = q.shape) (same : p.toList = q.toList) :
    p = q := by
  have length : ∀ {as bs : List α}, (as.map fun _ => ()) = bs.map (fun _ => ()) → as.length = bs.length :=
    fun alike => by simpa using congrArg List.length alike
  have length' : ∀ {o o' : Option α}, (o.map fun _ => ()) = o'.map (fun _ => ()) →
      o.toList.length = o'.toList.length := by
    intro o o' alike
    cases o <;> cases o' <;> first | rfl | cases alike
  have inRest : ∀ {o o' : Option α}, o.toList = o'.toList → o = o' := fun alike => by
    simpa using congrArg List.head? alike
  have inNames : ∀ {m m' : NameMap α}, (m.map fun _ => ()) = m'.map (fun _ => ()) →
      m.values.length = m'.values.length := fun alike => by
    simpa using congrArg (fun m => m.values.length) alike
  obtain ⟨required, optional, rest, names, optionalNames, restNames⟩ := mk.inj shape
  -- The groups are cut off from the last one, since each has the length that the shape says.
  obtain ⟨same, restNames'⟩ := List.append_inj' same (length' restNames)
  obtain ⟨same, optionalNames'⟩ := List.append_inj' same (inNames optionalNames)
  obtain ⟨same, names'⟩ := List.append_inj' same (inNames names)
  obtain ⟨same, rest'⟩ := List.append_inj' same (length' rest)
  obtain ⟨required', optional'⟩ := List.append_inj' same (length optional)
  cases p
  cases q
  rw [mk.injEq]
  exact ⟨required', optional', inRest rest', NameMap.eq_of_form names names',
    NameMap.eq_of_form optionalNames optionalNames', inRest restNames'⟩

/-- **A layer of a type is known by its form and by what stands at its places.** -/
theorem Shape.eq_of_form {s s' : Shape α} (form : (s.map fun _ => ()) = s'.map fun _ => ())
    (same : s.toList = s'.toList) : s = s' := by
  cases s <;> cases s' <;> try cases form
  case applied.applied head name args _ _ args' =>
    obtain ⟨rfl, rfl, _⟩ := applied.inj form
    exact congrArg (applied head name) same
  case compound.compound => exact congrArg₂ compound (compound.inj form).1 same
  case tuple.tuple => exact congrArg tuple same
  case record.record => exact congrArg record (eq_of_keys (record.inj form) same)
  case proc.proc =>
    obtain ⟨inParams, inResult⟩ := List.append_inj' same rfl
    exact congrArg₂ proc (Params.eq_of_shape (proc.inj form).1 inParams) (List.cons.inj inResult).1
  all_goals rfl

theorem DeclaredParam.eq_of_outline {p q : DeclaredParam α} (outline : (p.map fun _ => ()) = q.map fun _ => ())
    (same : p.type = q.type) : p = q := by
  cases p
  cases q
  cases same
  exact congrArg (DeclaredParam.mk · _) (DeclaredParam.mk.inj outline).1

namespace DeclaredParams

theorem eq_of_outline_positionals {ps qs : List (DeclaredParam α)}
    (outline : ps.map (DeclaredParam.map fun _ => ()) = qs.map (DeclaredParam.map fun _ => ())) :
    ps.map DeclaredParam.type = qs.map DeclaredParam.type → ps = qs :=
  eq_of_map_eq (fun _ _ => DeclaredParam.eq_of_outline) outline

theorem eq_of_outline_keywords {ks ls : List (Name × DeclaredParam α)}
    (outline : (ks.map fun binding => (binding.1, binding.2.map fun _ => ())) =
      ls.map fun binding => (binding.1, binding.2.map fun _ => ())) :
    ks.map (·.2.type) = ls.map (·.2.type) → ks = ls := by
  refine eq_of_map_eq (fun binding binding' outline same => ?_) outline
  obtain ⟨name, param⟩ := Prod.mk.inj outline
  exact Prod.ext name (DeclaredParam.eq_of_outline param same)

theorem eq_of_outline_rest {o o' : Option (DeclaredParam α)}
    (outline : o.map (DeclaredParam.map fun _ => ()) = o'.map (DeclaredParam.map fun _ => ()))
    (same : o.toList.map DeclaredParam.type = o'.toList.map DeclaredParam.type) : o = o' := by
  cases o with
  | none => cases o' with
    | none => rfl
    | some q => cases outline
  | some p => cases o' with
    | none => cases outline
    | some q =>
      exact congrArg some (DeclaredParam.eq_of_outline (Option.some.inj outline) (List.cons.inj same).1)

/-- **Declared parameters are known by their outline and by what they hold.** -/
theorem eq_of_outline {p q : DeclaredParams α} (outline : (p.map fun _ => ()) = q.map fun _ => ())
    (same : p.toList = q.toList) : p = q := by
  have length : ∀ {ι κ ρ : Type} {f g : ι → κ} {h h' : ι → ρ} {is js : List ι},
      is.map f = js.map g → (is.map h).length = (js.map h').length := fun alike => by
    simpa using congrArg List.length alike
  have length' : ∀ {o o' : Option (DeclaredParam α)},
      o.map (DeclaredParam.map fun _ => ()) = o'.map (DeclaredParam.map fun _ => ()) →
        (o.toList.map DeclaredParam.type).length = (o'.toList.map DeclaredParam.type).length := by
    intro o o' alike
    cases o <;> cases o' <;> first | rfl | cases alike
  obtain ⟨required, optional, rest, trailing, names, optionalNames, restNames⟩ := mk.inj outline
  -- The groups are cut off from the last one, since each has the length that the outline says.
  obtain ⟨same, restNames'⟩ := List.append_inj' same (length' restNames)
  obtain ⟨same, optionalNames'⟩ := List.append_inj' same (length optionalNames)
  obtain ⟨same, names'⟩ := List.append_inj' same (length names)
  obtain ⟨same, trailing'⟩ := List.append_inj' same (length trailing)
  obtain ⟨same, rest'⟩ := List.append_inj' same (length' rest)
  obtain ⟨required', optional'⟩ := List.append_inj' same (length optional)
  cases p
  cases q
  rw [mk.injEq]
  exact ⟨eq_of_outline_positionals required required', eq_of_outline_positionals optional optional',
    eq_of_outline_rest rest rest', eq_of_outline_positionals trailing trailing',
    eq_of_outline_keywords names names', eq_of_outline_keywords optionalNames optionalNames',
    eq_of_outline_rest restNames restNames'⟩

end DeclaredParams

/-- Other things at the places leave the form as it is. -/
theorem DeclaredParams.form_map (f : α → β) (p : DeclaredParams α) :
    ((p.map f).map fun _ => ()) = p.map fun _ => () := map_map f _ p

theorem Declared.form_map (f : α → β) (d : Declared α) : ((d.map f).map fun _ => ()) = d.map fun _ => () :=
  map_map f _ d

namespace Declared

/-- **A layer is known by its outline, its type name and what stands at its places.** -/
theorem eq_of_outline {d d' : Declared α} (outline : d.outline = d'.outline)
    (name : d.typeName? = d'.typeName?) (same : d.toList = d'.toList) : d = d' := by
  cases d <;> cases d' <;> try cases outline
  case singleton.singleton => exact congrArg singleton (Option.some.inj name)
  case aliasRef.aliasRef => exact congrArg aliasRef (Option.some.inj name)
  case classInstance.classInstance => exact congrArg₂ classInstance (Option.some.inj name) same
  case interface.interface => exact congrArg₂ interface (Option.some.inj name) same
  case compound.compound => exact congrArg₂ compound (compound.inj outline).1 same
  case optional.optional => exact congrArg optional (List.cons.inj same).1
  case tuple.tuple => exact congrArg tuple same
  case record.record fields fields' =>
    exact congrArg record (eq_of_keys (record.inj outline) same)
  case proc.proc fn fn' =>
    have params := (DeclaredFunction.mk.inj (proc.inj outline)).1
    obtain ⟨inParams, inResult⟩ := List.append_inj' same rfl
    cases fn
    cases fn'
    exact congrArg proc (congrArg₂ DeclaredFunction.mk (DeclaredParams.eq_of_outline params inParams)
      (List.cons.inj inResult).1)
  all_goals rfl

/-- A layer is known by its form, which is its outline with the name, and by what stands at its places. -/
theorem eq_of_form {d d' : Declared α} (form : (d.map fun _ => ()) = d'.map fun _ => ())
    (same : d.toList = d'.toList) : d = d' := by
  refine eq_of_outline (congrArg (mapName fun _ => default) form) ?_ same
  have named : ∀ e : Declared α, (e.map fun _ => ()).typeName? = e.typeName? := fun e => by cases e <;> rfl
  rw [← named d, form, named d']

end Declared

end SignatureAlgebra
