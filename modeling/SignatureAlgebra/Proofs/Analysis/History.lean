/-
**What was asked before has no influence.**

A session starts with nothing remembered and goes through any questions in any order, answered or
refused; between two questions others may intern names and use up fresh variables. Whatever is asked
then is answered as by a session that remembers nothing but has the same names and the same next fresh
variable. The arena has no cycles, since a node is added after the nodes it refers to
(`Arena.Acyclic.push`).

* `Query`, `Analysis.answer` — the questions and their answers.
* `Event`, `Analysis.after` — what happens to a session.
* `Analysis.idle_step`, `Analysis.idle_after` — the invariant, for one event and for all.
* `Analysis.answer_after` — the statement.
-/
import SignatureAlgebra.Analysis.Naming
import SignatureAlgebra.Proofs.Analysis.Ensures

namespace SignatureAlgebra

/-- A question to an analysis. -/
inductive Query where
  | typeOf (id : NodeId)
  | paramsOf (params : DeclaredParams NodeId)
  | unfold (name : TypeName)
  | expandOne (t : Ty)
  | expandDeep (t : Ty)
  | unwrapOptional (t : Ty)
  | instantiate (signature : DeclaredMethod NodeId) (selfType : Ty)
    (substitution : Option Substitution) (origin : Option Origin)
  | interface (t : Ty) (includePrivate : Bool)
  | interfaceFor (t : Ty) (includePrivate : Bool) (selfType : Ty)
  | resolveToAbsolute (t : Ty) (context : Namespace)
  | instanceType (name : TypeName) (args : Option (List Ty))

/-- What a question that is not refused is answered with. -/
def Query.Answer : Query → Type
  | paramsOf _ => Params Ty
  | unwrapOptional _ => Ty × Option Ty
  | instantiate _ _ _ _ => Overload
  | interface _ _ | interfaceFor _ _ _ => Interface
  | typeOf _ | unfold _ | expandOne _ | expandDeep _ | resolveToAbsolute _ _ | instanceType _ _ => Ty

/-- What happens to a session: a question, or a change of the names and of the next fresh variable by
others. -/
inductive Event where
  | ask (question : Query)
  | elsewhere (names : Interner) (nextFresh : Nat)

namespace Analysis

/-- The answer to a question. -/
def answer (a : Analysis) : (question : Query) → AnalysisM question.Answer
  | .typeOf id => a.toTy id
  | .paramsOf params => a.params params
  | .unfold name => a.unfold name
  | .expandOne t => a.expandOne t
  | .expandDeep t => a.expandDeep t
  | .unwrapOptional t => a.unwrapOptional t
  | .instantiate signature selfType substitution origin =>
    a.instantiate signature selfType substitution origin
  | .interface t includePrivate => a.interface t includePrivate
  | .interfaceFor t includePrivate selfType => a.interfaceFor t includePrivate selfType
  | .resolveToAbsolute t context => a.resolveToAbsolute t context
  | .instanceType name args => a.instanceType name args

/-- A session after an event. -/
def step (a : Analysis) (s : Session) : Event → Session
  | .ask question => (a.answer question s).2
  | .elsewhere names nextFresh => { s with names := names, nextFresh := nextFresh }

/-- A session after some events. -/
def after (a : Analysis) (s : Session) (events : List Event) : Session := events.foldl a.step s

variable {a : Analysis}

/-- **A property that pervades all answers** is one of every question. -/
theorem Pervades.answer {P : ∀ ⦃α : Type⦄, StateM Session α → Prop} (all : a.Pervades P)
    (question : Query) : P (a.answer question).run := by
  cases question with
  | typeOf id => exact all.lift (all.toTy id)
  | paramsOf params => exact all.lift (all.params params)
  | unfold name => exact all.unfold name
  | expandOne t => exact all.expandOne t
  | expandDeep t => exact all.expandDeep t
  | unwrapOptional t => exact all.unwrapOptional t
  | instantiate signature selfType substitution origin =>
    exact all.lift (all.instantiate signature selfType substitution origin)
  | interface t includePrivate => exact all.interfaceFor t includePrivate t
  | interfaceFor t includePrivate selfType => exact all.interfaceFor t includePrivate selfType
  | resolveToAbsolute t context => exact all.ofExcept _
  | instanceType name args => exact all.ofExcept _

theorem transparent_answer (a : Analysis) (question : Query) :
    a.Transparent (a.answer question).run := (pervades_transparent a).answer question

/-- What holds of a session between two questions: it remembers nothing wrong, and no alias is on the
way. -/
structure Idle (a : Analysis) (s : Session) : Prop where
  coherent : s.Coherent a
  receivers : s.receivers = []

theorem idle_start (a : Analysis) (names : Interner) (nextFresh : Nat) :
    a.Idle (.start names nextFresh) := ⟨Session.coherent_start a names nextFresh, rfl⟩

/-- **One event** keeps a session idle. -/
theorem idle_step (acyclic : a.env.arena.Acyclic) {s : Session} (idle : a.Idle s) (event : Event) :
    a.Idle (a.step s event) := by
  cases event with
  | ask question =>
    have transparent := transparent_answer a question
    have agree : Session.Agree a s s := ⟨rfl, rfl, rfl, idle.coherent, idle.coherent⟩
    refine ⟨(transparent.same acyclic s s agree).2.left, ?_⟩
    exact (transparent.grows s).receivers.trans idle.receivers
  | elsewhere names nextFresh =>
    exact ⟨⟨idle.coherent.memo, idle.coherent.unfolded⟩, idle.receivers⟩

/-- **All events** keep a session idle. -/
theorem idle_after (acyclic : a.env.arena.Acyclic) {s : Session} (idle : a.Idle s)
    (events : List Event) : a.Idle (a.after s events) := by
  induction events generalizing s with
  | nil => exact idle
  | cons event rest ih => exact ih (idle_step acyclic idle event)

/-- **What holds of every idle session holds at any time.** -/
theorem outcome_after (acyclic : a.env.arena.Acyclic) (names : Interner) (nextFresh : Nat)
    (events : List Event) {α : Type} {action : AnalysisM α} {given : α → Prop} {refused : Error → Prop}
    (ends : Ends (Session.OnWay a []) action given refused) :
    Outcome given refused (action (a.after (.start names nextFresh) events)).1 := by
  have idle : a.Idle (a.after (.start names nextFresh) events) :=
    idle_after acyclic (idle_start a names nextFresh) events
  exact (ends _ ⟨idle.coherent, idle.receivers⟩).1

/-- **What was asked before has no influence.** After any events no alias is on the way, and every
question is answered as by a session that remembers nothing, with the same effect on the names and on
the next fresh variable. -/
theorem answer_after (acyclic : a.env.arena.Acyclic) (names : Interner) (nextFresh : Nat)
    (events : List Event) (question : Query) :
    let s := a.after (.start names nextFresh) events
    s.receivers = [] ∧ (a.answer question s).1 = (a.answer question s.forget).1 ∧
      (a.answer question s).2.forget = (a.answer question s.forget).2.forget := by
  intro s
  have idle : a.Idle s := idle_after acyclic (idle_start a names nextFresh) events
  have agree : Session.Agree a s s.forget := Session.agree_forget idle.coherent idle.receivers
  obtain ⟨same, agree'⟩ := (transparent_answer a question).same acyclic s s.forget agree
  refine ⟨idle.receivers, same, ?_⟩
  show Session.start (a.answer question s).2.names (a.answer question s).2.nextFresh =
    Session.start (a.answer question s.forget).2.names (a.answer question s.forget).2.nextFresh
  have names' : (a.answer question s).2.names = (a.answer question s.forget).2.names := agree'.names
  have nextFresh' : (a.answer question s).2.nextFresh = (a.answer question s.forget).2.nextFresh :=
    agree'.nextFresh
  rw [names', nextFresh']

/-- An alias that stands for itself and `nil` at once: `type loop = loop & nil`. -/
def loop : Ty := .aliasOf default []

/-- Nothing is declared but the alias. -/
def ofLoop : Analysis where
  env := { Environment.empty 0 with
    arena := ((((Arena.empty 0).push (.aliasRef default)).push (.base .nil)).push
      (.compound .intersection [0, 1]))
    aliases := [(default, 2)] }
  core := .standard
  joinRule := .structural

theorem answer_after_refused :
    let events := [Event.ask (.interface loop false), .elsewhere .initial 7,
      .ask (.expandDeep loop)]
    let s := ofLoop.after (.start .initial 0) events
    ofLoop.env.arena.Acyclic ∧
      (ofLoop.answer (.interface loop false) s).1 = .error (.recursiveAlias loop) ∧
      s.memo.size = 3 ∧
      s.receivers = [] ∧
      (ofLoop.answer (.interface loop false) s).1 =
        (ofLoop.answer (.interface loop false) s.forget).1 ∧
      (ofLoop.answer (.interface loop false) s).2.forget =
        (ofLoop.answer (.interface loop false) s.forget).2.forget := by
  intro events s
  have acyclic : ofLoop.env.arena.Acyclic :=
    (((Arena.acyclic_empty 0).push (by decide)).push (by decide)).push (by decide)
  exact ⟨acyclic, by rfl, by rfl, answer_after acyclic .initial 0 events (.interface loop false)⟩

end Analysis

end SignatureAlgebra
