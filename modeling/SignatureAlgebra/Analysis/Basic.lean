/-
**Analyses: questions about declared types.**

An `Analysis` is what the questions are asked of: the declarations, the well-known names and the rule
that joins overloads. A `Session` is what changes while they are answered: names are interned for
fresh variables, and the types of nodes and the bodies of aliases are remembered.

* `AnalysisM` — an answer that depends on a session; a failure keeps the session as it was left.
* `Session.forget` — the session with the same names and nothing remembered.
* `Analysis.toTy`, `Analysis.params` — the types of nodes of the environment's arena.
-/
import SignatureAlgebra.CoreNames
import SignatureAlgebra.Environment
import SignatureAlgebra.Interface
import SignatureAlgebra.Conversion

namespace SignatureAlgebra

/-- What questions are asked of. -/
structure Analysis where
  env : Environment
  core : CoreNames
  joinRule : JoinRule

/-- What changes while questions are answered. -/
structure Session where
  /-- The interned texts. -/
  names : Interner
  /-- The number of the next fresh variable, counted on where the numbers begin again. -/
  nextFresh : Nat
  /-- The types of the nodes that were met. -/
  memo : Memo
  /-- The bodies of the aliases that were unfolded. -/
  unfolded : List (TypeName × Ty)
  /-- The aliases whose interface is being computed, innermost first. -/
  receivers : List Ty

namespace Session

def start (names : Interner) (nextFresh : Nat) : Session := ⟨names, nextFresh, .empty, [], []⟩

/-- The session with the same names and nothing remembered. -/
def forget (s : Session) : Session := start s.names s.nextFresh

end Session

/-- An answer that depends on a session and may fail. -/
abbrev AnalysisM : Type → Type := ExceptT Error (StateM Session)

/-- Remembers the types of nodes within a session. -/
def Session.remembering {α : Type} (action : StateM Memo α) : StateM Session α := fun s =>
  let (result, memo) := action s.memo
  (result, { s with memo := memo })

namespace Analysis

def toTy (a : Analysis) (id : NodeId) : StateM Session Ty :=
  Session.remembering (Memo.toTy a.env.arena id)

def params (a : Analysis) (params : DeclaredParams NodeId) : StateM Session (Params Ty) :=
  Session.remembering (Memo.params a.env.arena params)

end Analysis

end SignatureAlgebra
