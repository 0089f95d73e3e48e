/-
**Structures refine the class behind them.**

A tuple borrows the interface of the array of its members, a record that of the hash of its keys and values
and a proc type that of a proc, and only a few methods are refined: overloads for single places are put in
front of those of the class, and calling has the exact overload alone. So the interface of a structure is
refused exactly if that of the class is, every other method is as it was, and since overloads are tried from
front to back, a place that is known is found first.

Type parameters of a method that are free in the type for `self` get names that are new at the time. So the
interface of the class is the same at two times where there are no such type parameters, or with the same
names to come.

* `Analysis.Behind` — the type whose interface a structure borrows; `Analysis.interfaceFor_behind`.
* `Analysis.NamesAlike`, `Analysis.outcomes_instanceOf` — the interface of a class at two times.
* `Analysis.IsPlace`, `find?_placeOverloads` — the places of a structure and their overloads.
* `Analysis.Refines`, `Analysis.refines_refine` — what is kept and what is put in front.
* `Analysis.outcomes_behind`, `Analysis.interfaceFor_refines` — the statement.
-/
import SignatureAlgebra.Proofs.Analysis.Privacy

namespace SignatureAlgebra

/-- Outcomes that are given alike and refused alike are the same. -/
theorem Outcomes.eq_of_given {α : Type} {given : α → α → Prop} {x y : Except Error α}
    (outcomes : Outcomes given Eq x y) (same : ∀ v w, given v w → v = w) : x = y := by
  match x, y, outcomes with
  | .ok v, .ok w, related => exact congrArg Except.ok (same v w related)
  | .error _, .error _, alike => exact congrArg Except.error alike

namespace Analysis

variable {a : Analysis} {t base selfType : Ty} {s s' : Session}

/-! ### The class behind a structure -/

/-- **The type whose interface a structure borrows.** -/
inductive Behind (a : Analysis) : Ty → Ty → Prop where
  | tuple (members : List Ty) : a.Behind (.tuple members) (a.core.arrayOf (.union members))
  | record (fields : List (Literal × Ty)) :
    a.Behind (.record fields)
      (a.core.hashOf (.union (fields.map fun field => .literal field.1)) (.union (fields.map Prod.snd)))
  | proc (params : Params Ty) (result : Ty) :
    a.Behind (.proc params result) (.instanceOf a.core.proc [])

theorem Behind.exists_instanceOf (behind : a.Behind t base) : ∃ name args, base = .instanceOf name args := by
  cases behind with
  | tuple | record | proc => exact ⟨_, _, rfl⟩

theorem interfaceFor_instanceOf (a : Analysis) (name : TypeName) (args : List Ty) (includePrivate : Bool)
    (selfType : Ty) :
    a.interfaceFor (.instanceOf name args) includePrivate selfType =
      a.instanceInterface name args includePrivate selfType := by
  rw [interfaceFor, interfaceWithin, Ty.recurse_node]
  rfl

/-- An action that ends by changing what an action gives is refused as that is. -/
theorem fst_return {α β : Type} (f : α → β) (x : AnalysisM α) (s : Session) :
    ((do return f (← x) : AnalysisM β) s).1 = (x s).1.map f := by
  let next : α → AnalysisM β := fun v => return f v
  show (ExceptT.bindCont next (x s).1 (x s).2).1 = _
  cases (x s).1 with
  | ok v => rfl
  | error e => rfl

/-- The interface of a structure is the refined one of the class behind it. -/
theorem interfaceFor_behind (behind : a.Behind t base) (includePrivate : Bool) (selfType : Ty) :
    a.interfaceFor t includePrivate selfType =
      (do return a.refine t (← a.interfaceFor base includePrivate selfType)) := by
  cases behind with
  | tuple members =>
    rw [CoreNames.arrayOf, interfaceFor_instanceOf, interfaceFor, interfaceWithin, Ty.recurse_node]
    rfl
  | record fields =>
    rw [CoreNames.hashOf, interfaceFor_instanceOf, interfaceFor, interfaceWithin, Ty.recurse_node]
    rfl
  | proc params result =>
    rw [interfaceFor_instanceOf, interfaceFor, interfaceWithin, Ty.recurse_node]
    rfl

/-! ### The interface of a class at two times -/

/-- **Two times at which the methods of a class get the same type parameters**: the same names are next, or
none of the type parameters is free in the type for `self`. -/
def NamesAlike (a : Analysis) (selfType base : Ty) (s s' : Session) : Prop :=
  (s.names = s'.names ∧ s.nextFresh = s'.nextFresh) ∨
    ∀ d args, a.env.IsNamed base d args → ∀ member ∈ d.members, ∀ declared ∈ member.overloads,
      ∀ q ∈ declared.signature.typeParams, q ∉ selfType.freeVars

theorem memberInterface_eq (acyclic : a.env.arena.Acyclic) (idle : a.Idle s) (idle' : a.Idle s')
    {d : Definition} {args : List Ty} (named : a.env.IsNamed base d args) {filled : Substitution}
    (known : filled.slot .selfType = some selfType) (includePrivate : Bool)
    (alike : a.NamesAlike selfType base s s') :
    (a.memberInterface d filled includePrivate selfType s).1 =
      (a.memberInterface d filled includePrivate selfType s').1 := by
  rcases alike with ⟨names, nextFresh⟩ | free
  · have transparent : a.Transparent (a.memberInterface d filled includePrivate selfType) :=
      (pervades_transparent a).memberInterface d filled includePrivate selfType
    have receivers : s.receivers = s'.receivers := idle.receivers.trans idle'.receivers.symm
    exact (transparent.same acyclic s s' ⟨names, nextFresh, receivers, idle.coherent, idle'.coherent⟩).1
  · obtain ⟨receiver, flag⟩ := memberInterface_fields a d filled includePrivate selfType s
    obtain ⟨receiver', flag'⟩ := memberInterface_fields a d filled includePrivate selfType s'
    refine Interface.eq_of_find? (receiver.trans receiver'.symm) (flag.trans flag'.symm) fun name => ?_
    exact find?_memberInterface_eq acyclic known idle.coherent idle'.coherent rfl fun member visible =>
      free d args named member (mem_of_visible? visible)

/-- **The interface of a class at two times**: refused for the same reason, or given and the same if the names
are alike. -/
theorem outcomes_instanceOf (acyclic : a.env.arena.Acyclic) (idle : a.Idle s) (idle' : a.Idle s')
    (name : TypeName) (args : List Ty) (includePrivate : Bool) (selfType : Ty) :
    Outcomes (fun i i' => a.NamesAlike selfType (.instanceOf name args) s s' → i = i') Eq
      (a.interfaceFor (.instanceOf name args) includePrivate selfType s).1
      (a.interfaceFor (.instanceOf name args) includePrivate selfType s').1 := by
  cases declared : a.env.instanceDefinition name with
  | error e =>
    have refused : ∀ s, (a.interfaceFor (.instanceOf name args) includePrivate selfType s).1 = .error e := by
      intro s
      rw [interfaceFor_instanceOf, instanceInterface, declared]
      rfl
    rw [refused, refused]
    exact Eq.refl e
  | ok d =>
    have named : a.env.IsNamed (.instanceOf name args) d args := .ofClass args declared
    obtain ⟨filled, _, known, run⟩ := interfaceFor_run named includePrivate selfType
    rw [run s, run s']
    by_cases length : d.typeParams.length = args.length
    · rw [if_pos length, if_pos length]
      exact memberInterface_eq acyclic idle idle' named known includePrivate
    · rw [if_neg length, if_neg length]
      exact Eq.refl (Error.arityMismatch d.typeParams.length args.length)

/-! ### Places -/

/-- **What stands at the places of a structure**: the members of a tuple under their indices, and under each
key of a record the value of its first field. -/
inductive IsPlace : Ty → Literal → Ty → Prop where
  | member {members : List Ty} {index : Nat} {t : Ty} (isMember : members[index]? = some t) :
    IsPlace (.tuple members) (.integer index) t
  | field {fields : List (Literal × Ty)} {key : Literal} {value : Ty}
    (isField : fields.lookup key = some value) : IsPlace (.record fields) key value

theorem lookup_indexed (members : List Ty) (start index : Nat) :
    (indexed start members).lookup (.integer (start + index : Nat)) = members[index]? := by
  induction members generalizing start index with
  | nil => rfl
  | cons t rest ih =>
    cases index with
    | zero => exact List.lookup_cons_self
    | succ index =>
      have different : Literal.integer (start + (index + 1) : Nat) ≠ .integer (start : Nat) := by
        intro same
        have := Literal.integer.inj same
        omega
      have later : start + (index + 1) = start + 1 + index := by omega
      rw [indexed, List.lookup_cons, beq_false_of_ne different, later]
      exact ih (start + 1) index

/-- Whether an overload takes one parameter, which is exactly a literal. -/
def takesOnly (key : Literal) (o : Overload) : Bool := o.type.params.toList = [.literal key]

theorem takesOnly_place {key key' : Literal} {value : Ty} :
    takesOnly key (.ofTypes (.positional [.literal key']) value) = true ↔ key' = key := by
  have parameters : (Overload.ofTypes (.positional [.literal key']) value).type.params.toList =
      [.literal key'] := rfl
  rw [takesOnly, parameters, decide_eq_true_iff]
  simp

/-- **A place that is known is found first**, whatever comes behind the overloads for single places. -/
theorem find?_placeOverloads {places : List (Literal × Ty)} {key : Literal} {value : Ty}
    (found : places.lookup key = some value) (behind : List Overload) :
    ((placeOverloads places).1 ++ behind).find? (takesOnly key) =
      some (.ofTypes (.positional [.literal key]) value) := by
  induction places with
  | nil => cases found
  | cons place rest ih =>
    obtain ⟨key', value'⟩ := place
    have first : (placeOverloads ((key', value') :: rest)).1 ++ behind =
        .ofTypes (.positional [.literal key']) value' :: ((placeOverloads rest).1 ++ behind) := rfl
    rw [first]
    by_cases same : key' = key
    · subst same
      rw [List.lookup_cons_self] at found
      rw [List.find?_cons_of_pos (takesOnly_place.2 rfl), Option.some.inj found]
    · rw [List.lookup_cons, beq_false_of_ne (Ne.symm same)] at found
      rw [List.find?_cons_of_neg fun isFirst => same (takesOnly_place.1 isFirst)]
      exact ih found

theorem find?_refinePlaces (distinct : a.core.elementGet ≠ a.core.elementSet) (i : Interface)
    (places : List (Literal × Ty)) (name : Name) :
    (a.refinePlaces i places).find? name =
      if name = a.core.elementGet then
        some ((placeOverloads places).1 ++ (i.find? name).getD [])
      else if name = a.core.elementSet then
        some ((placeOverloads places).2 ++ (i.find? name).getD [])
      else i.find? name := by
  show ((i.putFirst a.core.elementGet (placeOverloads places).1).putFirst a.core.elementSet
    (placeOverloads places).2).find? name = _
  rw [Interface.find?_putFirst, Interface.find?_putFirst]
  by_cases isGet : name = a.core.elementGet
  · rw [if_neg (isGet ▸ distinct), if_pos isGet, if_pos isGet]
  · rw [if_neg isGet, if_neg isGet]

/-! ### What is refined -/

/-- **What a structure makes of the interface of the class behind it.** -/
structure Refines (a : Analysis) (t : Ty) (i base : Interface) : Prop where
  /-- Methods without overloads of the structure are as they were. -/
  kept : ∀ name, name ∉ a.placed t → i.find? name = base.find? name
  /-- Reading and writing places goes on with the overloads of the class, in order. -/
  extended : ∀ name ∈ a.extended t, ∃ precise, i.find? name = some (precise ++ (base.find? name).getD [])
  /-- Reading a place that is known gives what stands there. -/
  reads : ∀ key value, IsPlace t key value → ∃ overloads, i.find? a.core.elementGet = some overloads ∧
    overloads.find? (takesOnly key) = some (.ofTypes (.positional [.literal key]) value)
  /-- Calling is exact. -/
  calls : ∀ params result, t = .proc params result → ∀ name ∈ a.placed t,
    i.find? name = some [.ofTypes params result]

/-- Reading and writing places goes on with the overloads of the class, and nothing else is touched but some
other methods. -/
theorem refines_of_places {i j : Interface} {places : List (Literal × Ty)} {others : List Name}
    (distinct : a.core.elementGet ≠ a.core.elementSet) (apartGet : a.core.elementGet ∉ others)
    (apartSet : a.core.elementSet ∉ others)
    (placed : a.placed t = a.core.elementGet :: a.core.elementSet :: others)
    (extended : a.extended t = [a.core.elementGet, a.core.elementSet])
    (found : ∀ name ∉ others, j.find? name = (a.refinePlaces i places).find? name)
    (known : ∀ key value, IsPlace t key value → places.lookup key = some value)
    (noProc : ∀ params result, t ≠ .proc params result) : a.Refines t j i := by
  have atGet : j.find? a.core.elementGet =
      some ((placeOverloads places).1 ++ (i.find? a.core.elementGet).getD []) := by
    rw [found _ apartGet, find?_refinePlaces distinct, if_pos rfl]
  have atSet : j.find? a.core.elementSet =
      some ((placeOverloads places).2 ++ (i.find? a.core.elementSet).getD []) := by
    rw [found _ apartSet, find?_refinePlaces distinct, if_neg distinct.symm, if_pos rfl]
  refine ⟨fun name notPlaced => ?_, fun name isExtended => ?_, fun key value isPlace => ?_, ?_⟩
  · rw [placed, List.mem_cons, List.mem_cons, not_or, not_or] at notPlaced
    obtain ⟨notGet, notSet, notOther⟩ := notPlaced
    rw [found name notOther, find?_refinePlaces distinct, if_neg notGet, if_neg notSet]
  · rw [extended] at isExtended
    rcases List.mem_cons.1 isExtended with rfl | isSet
    · exact ⟨_, atGet⟩
    · obtain rfl := List.mem_singleton.1 isSet
      exact ⟨_, atSet⟩
  · exact ⟨_, atGet, find?_placeOverloads (known key value isPlace) _⟩
  · exact fun params result isProc => absurd isProc (noProc params result)

section Standard

variable (standard : a.core = .standard)

include standard

theorem elementGet_ne_elementSet : a.core.elementGet ≠ a.core.elementSet := by
  rw [standard]
  decide

theorem refines_tuple (members : List Ty) (i : Interface) :
    a.Refines (.tuple members) (a.refine (.tuple members) i) i := by
  have apartGet : a.core.elementGet ∉ [a.core.first, a.core.last] := by
    rw [standard]
    decide
  have apartSet : a.core.elementSet ∉ [a.core.first, a.core.last] := by
    rw [standard]
    decide
  have found : ∀ name ∉ [a.core.first, a.core.last], (a.refine (.tuple members) i).find? name =
      (a.refinePlaces i (indexed 0 members)).find? name := by
    intro name isOther
    rw [List.mem_cons, List.mem_singleton, not_or] at isOther
    rw [refine, Interface.find?_put, Interface.find?_put, if_neg isOther.2, if_neg isOther.1]
  refine refines_of_places (elementGet_ne_elementSet standard) apartGet apartSet rfl rfl found
    (fun key value isPlace => ?_) nofun
  cases isPlace with
  | @member _ index _ isMember =>
    have here := lookup_indexed members 0 index
    rwa [Nat.zero_add, isMember] at here

theorem refines_record (fields : List (Literal × Ty)) (i : Interface) :
    a.Refines (.record fields) (a.refine (.record fields) i) i := by
  have found : ∀ name ∉ [],
      (a.refine (.record fields) i).find? name = (a.refinePlaces i fields).find? name := fun _ _ => rfl
  refine refines_of_places (elementGet_ne_elementSet standard) List.not_mem_nil List.not_mem_nil rfl rfl found
    (fun key value isPlace => ?_) nofun
  cases isPlace with
  | field isField => exact isField

theorem refines_proc (params : Params Ty) (result : Ty) (i : Interface) :
    a.Refines (.proc params result) (a.refine (.proc params result) i) i := by
  have apart : a.core.elementGet ≠ a.core.call := by
    rw [standard]
    decide
  have find? : ∀ name, (a.refine (.proc params result) i).find? name =
      if name = a.core.call then some [.ofTypes params result]
      else if name = a.core.elementGet then some [.ofTypes params result] else i.find? name := by
    intro name
    rw [refine, Interface.find?_put, Interface.find?_put]
  refine ⟨fun name notPlaced => ?_, nofun, nofun, fun params' result' same name isPlaced => ?_⟩
  · rw [placed, List.mem_cons, List.mem_singleton, not_or] at notPlaced
    rw [find?, if_neg notPlaced.2, if_neg notPlaced.1]
  · obtain ⟨rfl, rfl⟩ := Shape.proc.inj (Ty.node.inj same)
    rcases List.mem_cons.1 isPlaced with rfl | isCall
    · rw [find?, if_neg apart, if_pos rfl]
    · rw [find?, if_pos (List.mem_singleton.1 isCall)]

/-- **A structure refines the class behind it**, whatever the interface of the class is. -/
theorem refines_refine (behind : a.Behind t base) (i : Interface) : a.Refines t (a.refine t i) i := by
  cases behind with
  | tuple members => exact refines_tuple standard members i
  | record fields => exact refines_record standard fields i
  | proc params result => exact refines_proc standard params result i

end Standard

/-- The interface of a structure is refused for the reason for which that of the class is, or refines it. -/
theorem outcomes_behind (standard : a.core = .standard) (behind : a.Behind t base) (includePrivate : Bool)
    (selfType : Ty) (s : Session) :
    Outcomes (a.Refines t) Eq (a.interfaceFor t includePrivate selfType s).1
      (a.interfaceFor base includePrivate selfType s).1 := by
  have run : (a.interfaceFor t includePrivate selfType s).1 =
      (a.interfaceFor base includePrivate selfType s).1.map (a.refine t) := by
    rw [interfaceFor_behind behind]
    exact fst_return (a.refine t) _ s
  rw [run]
  cases (a.interfaceFor base includePrivate selfType s).1 with
  | ok i => exact refines_refine standard behind i
  | error e => exact Eq.refl e

/-- **Structures refine the class behind them and lose nothing.** With the usual base classes, whatever was
asked for before, the interface of a structure is refused exactly if that of the class is, for the same
reason. If they are given, every method that is not refined has the overloads of the class; for reading and
writing places those of the class come last, all of them in order; and the first overload for reading that
takes nothing but the literal of a place gives exactly what stands there. At another time the interface of
the class is refused for the same reason, and if the names are alike it is the same. -/
theorem interfaceFor_refines {env : Environment} (acyclic : env.arena.Acyclic) (joinRule : JoinRule)
    {t base : Ty} (behind : Behind ⟨env, .standard, joinRule⟩ t base) (names : Interner) (nextFresh : Nat)
    (events : List Event) (includePrivate : Bool) (selfType : Ty) :
    let a : Analysis := ⟨env, .standard, joinRule⟩
    let s := a.after (.start names nextFresh) events
    (∀ e, (a.interfaceFor t includePrivate selfType s).1 = .error e ↔
      (a.interfaceFor base includePrivate selfType s).1 = .error e) ∧
    (∀ i i', (a.interfaceFor t includePrivate selfType s).1 = .ok i →
      (a.interfaceFor base includePrivate selfType s).1 = .ok i' → a.Refines t i i') ∧
    ∀ (names' : Interner) (nextFresh' : Nat) (events' : List Event),
      let s' := a.after (.start names' nextFresh') events'
      (∀ e, (a.interfaceFor base includePrivate selfType s).1 = .error e ↔
        (a.interfaceFor base includePrivate selfType s').1 = .error e) ∧
      (a.NamesAlike selfType base s s' →
        (a.interfaceFor base includePrivate selfType s).1 =
          (a.interfaceFor base includePrivate selfType s').1) := by
  intro a s
  have outcomes : Outcomes (a.Refines t) Eq _ _ := outcomes_behind rfl behind includePrivate selfType s
  refine ⟨outcomes.error_iff, fun i i' given given' => ?_, fun names' nextFresh' events' => ?_⟩
  · rw [given, given'] at outcomes
    exact outcomes
  · intro s'
    have idle : a.Idle s := idle_after acyclic (idle_start a names nextFresh) events
    have idle' : a.Idle s' := idle_after acyclic (idle_start a names' nextFresh') events'
    obtain ⟨name, args, rfl⟩ := behind.exists_instanceOf
    have outcomes' := outcomes_instanceOf acyclic idle idle' name args includePrivate selfType
    exact ⟨outcomes'.error_iff, fun alike => outcomes'.eq_of_given fun _ _ same => same alike⟩

/-- Nothing is declared but the class `Array[E]` with the one method `[]: (untyped) -> E`. -/
def ofArray : Environment :=
  let reading : DeclaredMethod NodeId :=
    ⟨[], ⟨{ DeclaredParams.empty with required := [.anonymous 0] }, 1⟩, none⟩
  let member : Member :=
    ⟨CoreNames.standard.elementGet, false, [⟨reading, ⟨CoreNames.standard.array, .ofInstance⟩⟩]⟩
  { Environment.empty 0 with
    arena := ((Arena.empty 0).push (.base .any)).push (.var ⟨26⟩)
    classes := [(CoreNames.standard.array, ⟨.ofClass, ⟨[⟨26⟩], [member]⟩, ⟨[⟨26⟩], []⟩⟩)] }

/-- A pair has three overloads for reading: one for each place, and that of arrays. -/
theorem interfaceFor_refines_pair :
    let a : Analysis := ⟨ofArray, .standard, .structural⟩
    let pair : Ty := .tuple [.nil, .boolean]
    let array : Ty := .instanceOf a.core.array [.union [.nil, .boolean]]
    let s := Session.start .initial 1
    let any : Overload :=
      ⟨.ofTypes (.positional [.any]) (.union [.nil, .boolean]), some ⟨a.core.array, .ofInstance⟩⟩
    ofArray.arena.Acyclic ∧ a.Behind pair array ∧
      ∃ i i', (a.interfaceFor pair false pair s).1 = .ok i ∧
        (a.interfaceFor array false pair s).1 = .ok i' ∧ a.Refines pair i i' ∧
        i'.find? a.core.elementGet = some [any] ∧
        i.find? a.core.elementGet =
          some [.ofTypes (.positional [.literal (.integer 0)]) .nil,
            .ofTypes (.positional [.literal (.integer 1)]) .boolean, any] := by
  intro a pair array s any
  have acyclic : ofArray.arena.Acyclic := ((Arena.acyclic_empty 0).push (by decide)).push (by decide)
  have behind : a.Behind pair array := .tuple [.nil, .boolean]
  let i' := (Interface.empty pair false).put a.core.elementGet [any]
  have computed' : (a.interfaceFor array false pair s).1 = .ok i' := by rfl
  have computed : (a.interfaceFor pair false pair s).1 = .ok (a.refine pair i') := by rfl
  obtain ⟨_, refines, _⟩ := interfaceFor_refines acyclic .structural behind .initial 1 [] false pair
  exact ⟨acyclic, behind, a.refine pair i', i', computed, computed',
    refines (a.refine pair i') i' computed computed', by rfl, by rfl⟩

end Analysis

end SignatureAlgebra
