/-
**From method types to declarations and back.**

A method type is declared by declaring the types in it, those of its function first and then those of its
block; whether the block may be left out is written the other way round. So the method type that is read
off the declaration, in any arena that has its nodes, is the declared one with every type as its
constructors build it. An overload is made of the declaration by giving new names to the type parameters
that are free in the type for `self`; where there are none of these, nothing is renamed or replaced.

* `Arena.adds_params`, `Ty.adds_declareFunction` — declaring parameters and functions.
* `DeclaredMethod.read` — the method type of a declaration, given what its nodes are read as.
* `MethodType.adds_declare`, `MethodType.declare_run` — declaring a method type.
* `Analysis.instantiate_of_free` — making an overload without renaming.
* `MethodType.instantiate_declare` — the statement.
-/
import SignatureAlgebra.Proofs.Analysis.Instances
import SignatureAlgebra.Proofs.Analysis.Normality
import SignatureAlgebra.Proofs.Conversion.Growth

namespace SignatureAlgebra

/-! ### Functions -/

/-- **Adding the nodes of parameters.** -/
theorem Arena.adds_params {f : Ty → Declaring NodeId} {g : Ty → Ty} (p : Params Ty)
    (each : ∀ t ∈ p.toList, Declares (f t) (g t)) (arena : Arena) :
    arena.Adds (p.mapM f) fun ids later =>
      Holds later ids.toList fun read => ids.map read = p.map g := by
  refine Adds.of_inStep (Params.inStep_toList f p) (adds_list p.toList each arena) ?_
  rintro ids _ later ⟨rfl, shape⟩ holds
  refine holds.imp (List.Subset.refl _) fun read same => Params.eq_of_shape ?_ ?_
  · rw [Params.shape_map, Params.shape_map]
    exact shape
  · rw [Params.toList_map, Params.toList_map, same]

theorem DeclaredParams.toParams_map_ofParams (read : NodeId → Ty) (ids : Params NodeId) :
    ((ofParams ids).map read).toParams = ids.map read := by
  have mapped := Shape.toDeclared_map read (.proc ids 0)
  have ofMapped : (ofParams ids).map read = ofParams (ids.map read) :=
    (DeclaredFunction.mk.inj (Declared.proc.inj mapped)).1.symm
  rw [ofMapped, Shape.toParams_ofParams]

/-- **Declaring a function** in which no alias has arguments adds nodes for its parameters and for its
result. -/
theorem Ty.adds_declareFunction {params : Params Ty} {result : Ty}
    (inParams : ∀ t ∈ params.toList, t.IsDeclarable) (inResult : result.IsDeclarable) (arena : Arena) :
    arena.Adds (declareFunction params result) fun fn later =>
      later.Holds fn.toList fun read =>
        (fn.params.map read).toParams = params.map normalize ∧ read fn.result = result.normalize := by
  have declares : ∀ t ∈ params.toList, Arena.Declares t.declare t.normalize := fun t isParam =>
    declares_declare (inParams t isParam)
  refine (Arena.adds_params params declares arena).bind fun ids later _ => ?_
  refine (declares_declare inResult later).bind fun id last _ => ?_
  refine Arena.Adds.pure fun ofResult ofParams => (ofParams.append ofResult).imp ?_ fun read both => ?_
  · exact fun child member => Shape.mem_of_mem_toDeclared (s := .proc ids id) member
  · exact ⟨(DeclaredParams.toParams_map_ofParams read ids).trans both.1, both.2⟩

/-! ### Method types -/

/-- The method type of a declaration, given what its nodes are read as. -/
def DeclaredMethod.read (read : NodeId → Ty) (signature : DeclaredMethod NodeId) : MethodType where
  typeParams := signature.typeParams
  params := (signature.function.params.map read).toParams
  block := signature.block.map fun block =>
    ⟨!block.required, (block.function.params.map read).toParams, read block.function.result⟩
  result := read signature.function.result

theorem Arena.methodType_eq_read (arena : Arena) (signature : DeclaredMethod NodeId) :
    arena.methodType signature = signature.read arena.toTy := rfl

namespace MethodType

variable {type : MethodType}

/-- **Declaring a method type** in which no alias has arguments adds nodes for the types in it. -/
theorem adds_declare (declarable : ∀ t ∈ type.types, t.IsDeclarable) (arena : Arena) :
    arena.Adds type.declare fun signature later =>
      later.Holds signature.toList fun read => signature.read read = type.map Ty.normalize := by
  have inFunction : ∀ t ∈ type.params.toList, t.IsDeclarable := fun t isParam =>
    declarable t (mem_types.2 (Or.inl isParam))
  have inResult : type.result.IsDeclarable := declarable _ (mem_types.2 (Or.inr (Or.inr rfl)))
  refine (Ty.adds_declareFunction inFunction inResult arena).bind fun fn later _ => ?_
  cases hasBlock : type.block with
  | none =>
    refine Arena.Adds.pure fun ofFunction => ofFunction.imp ?_ fun read function => ?_
    · simp [DeclaredMethod.toList]
    · simp only [DeclaredMethod.read, map, hasBlock, function, Option.map_none]
  | some block =>
    have inBlock : ∀ t ∈ block.params.toList, t.IsDeclarable := fun t isParam =>
      declarable t (mem_types.2 (Or.inr (Or.inl ⟨block, hasBlock, Or.inl isParam⟩)))
    have inBlockResult : block.result.IsDeclarable :=
      declarable _ (mem_types.2 (Or.inr (Or.inl ⟨block, hasBlock, Or.inr rfl⟩)))
    refine (Ty.adds_declareFunction inBlock inBlockResult later).bind fun blockFn last _ => ?_
    refine Arena.Adds.pure fun ofBlock ofFunction =>
      (ofFunction.append ofBlock).imp (List.Subset.refl _) fun read both => ?_
    simp only [DeclaredMethod.read, map, hasBlock, both.1, both.2, Option.map_some, Bool.not_not]

/-- Declaring a method type whose types are in normal form and have no alias with arguments: it is read off
the declaration in every arena that has the new nodes. -/
theorem declare_run (declarable : ∀ t ∈ type.types, t.IsDeclarable) (normal : ∀ t ∈ type.types, t.IsNormal)
    {arena : Arena} (acyclic : arena.Acyclic) :
    ∃ signature later, type.declare arena = (.ok signature, later) ∧ arena.Extends later ∧
      ∀ last : Arena, later.Extends last → last.methodType signature = type := by
  obtain ⟨signature, later, run, grown, holds⟩ := adds_declare declarable arena
  refine ⟨signature, later, run, grown, fun last further => ?_⟩
  have asBuilt := holds.read last further (further.acyclic (grown.acyclic acyclic))
  have asItIs : type.map Ty.normalize = type.map id :=
    map_congr fun t isType => Ty.normalize_eq_self (normal t isType)
  rw [Arena.methodType_eq_read, asBuilt, asItIs, map_id]

end MethodType

/-! ### Overloads -/

/-- **An overload that is made without a substitution**, while no type parameter is free in the type for
`self`, has the method type that is declared; no name is made for it. -/
theorem Analysis.instantiate_of_free {a : Analysis} (acyclic : a.env.arena.Acyclic) {s : Session}
    (coherent : s.Coherent a) {signature : DeclaredMethod NodeId} {selfType : Ty}
    (free : ∀ q ∈ signature.typeParams, q ∉ selfType.freeVars) (origin : Option Origin) :
    let run := a.instantiate signature selfType none origin s
    run.1 = ⟨a.env.arena.methodType signature, origin⟩ ∧ run.2.names = s.names ∧
      run.2.nextFresh = s.nextFresh := by
  have keeps := Session.renameTaken_of_free free .empty s
  rw [instantiate_none]
  refine ⟨?_, ?_, ?_⟩
  · rw [instantiate_eq_apply acyclic coherent signature .empty origin keeps, Substitution.merge_empty]
    exact congrArg (Overload.mk · origin) (MethodType.map_id (a.env.arena.methodType signature))
  · rw [instantiate_run, keeps]
    cases signature.block <;> rfl
  · rw [instantiate_run, keeps]
    cases signature.block <;> rfl

/-- **From method types to declarations and back.** A method type whose types are in normal form and have no
alias with arguments can be declared in any arena without cycles. Wherever the nodes that this adds are there,
after whatever was asked for before, the overload made of the declaration without a substitution has just
this method type, for every type for `self` in which none of its type parameters is free and every origin:
the same type parameters, parameters, keywords and block, in the same order. No name is made on the way. -/
theorem MethodType.instantiate_declare {type : MethodType} (declarable : ∀ t ∈ type.types, t.IsDeclarable)
    (normal : ∀ t ∈ type.types, t.IsNormal) {arena : Arena} (acyclic : arena.Acyclic) :
    ∃ signature later, type.declare arena = (.ok signature, later) ∧ arena.Extends later ∧
      ∀ a : Analysis, later.Extends a.env.arena →
        ∀ (names : Interner) (nextFresh : Nat) (events : List Event) (selfType : Ty)
          (origin : Option Origin), (∀ q ∈ type.typeParams, q ∉ selfType.freeVars) →
          let s := a.after (.start names nextFresh) events
          let run := a.instantiate signature selfType none origin s
          run.1 = ⟨type, origin⟩ ∧ run.2.names = s.names ∧ run.2.nextFresh = s.nextFresh := by
  obtain ⟨signature, later, run, grown, reads⟩ := declare_run declarable normal acyclic
  refine ⟨signature, later, run, grown, fun a further names nextFresh events selfType origin free => ?_⟩
  have acyclic' : a.env.arena.Acyclic := further.acyclic (grown.acyclic acyclic)
  have coherent := (Analysis.idle_after acyclic' (Analysis.idle_start a names nextFresh) events).coherent
  have same : a.env.arena.methodType signature = type := reads a.env.arena further
  have free' : ∀ q ∈ signature.typeParams, q ∉ selfType.freeVars := by
    rw [← same] at free
    exact free
  rw [← same]
  exact Analysis.instantiate_of_free acyclic' coherent free' origin

/-- A generic method type with a keyword and an optional block:
`[T] (T, k: untyped) ?{ (T) -> void } -> T`. -/
def MethodType.ofGeneric : MethodType where
  typeParams := [⟨28⟩]
  params := { Params.empty with
    required := [.var ⟨28⟩]
    keywords := .ofList [(⟨27⟩, .any)] }
  block := some ⟨true, .positional [.var ⟨28⟩], .void⟩
  result := .var ⟨28⟩

theorem MethodType.instantiate_declare_generic :
    (∀ t ∈ ofGeneric.types, t.IsDeclarable) ∧ (∀ t ∈ ofGeneric.types, t.IsNormal) ∧
      (Arena.empty 0).Acyclic ∧ (∀ q ∈ ofGeneric.typeParams, q ∉ (Ty.var ⟨29⟩).freeVars) ∧
      ∃ signature later, ofGeneric.declare (.empty 0) = (.ok signature, later) ∧
        let a : Analysis := ⟨{ Environment.empty 0 with arena := later }, .standard, .structural⟩
        (a.instantiate signature (.var ⟨29⟩) none none (.start .initial 1)).1 = ⟨ofGeneric, none⟩ := by
  have declarable : ∀ t ∈ ofGeneric.types, t.IsDeclarable := by decide
  have normal : ∀ t ∈ ofGeneric.types, t.IsNormal := by decide
  have acyclic : (Arena.empty 0).Acyclic := Arena.acyclic_empty 0
  have free : ∀ q ∈ ofGeneric.typeParams, q ∉ (Ty.var ⟨29⟩).freeVars := by decide
  obtain ⟨signature, later, run, _, instantiates⟩ := instantiate_declare declarable normal acyclic
  refine ⟨declarable, normal, acyclic, free, signature, later, run, ?_⟩
  intro a
  exact (instantiates a (Arena.Extends.refl later) .initial 1 [] (.var ⟨29⟩) none free).1

end SignatureAlgebra
