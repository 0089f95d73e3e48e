/-
**What a name means in a namespace.**

A relative name is tried in the namespace it stands in and in those around it, all counted from the root. So
what it means is an absolute name, and an absolute name means itself wherever it stands.

* `Namespace.absolute_of_mem_ascend` — the namespaces around an absolute one are absolute.
* `Environment.isAbsolute_of_resolve?` — what a name means is absolute.
* `Analysis.isAbsolute_absoluteName`, `Analysis.absoluteName_of_isAbsolute` — every name is made absolute, and
  absolute names stay as they are.
-/
import SignatureAlgebra.Analysis.Naming

namespace SignatureAlgebra

theorem Namespace.absolute_of_mem_ascendFrom {ns outer : Namespace} {count : Nat}
    (isAround : outer ∈ ns.ascendFrom count) : outer.absolute = ns.absolute := by
  induction count with
  | zero =>
    rw [List.mem_singleton.1 isAround]
  | succ count ih =>
    rcases List.mem_cons.1 isAround with rfl | further
    · rfl
    · exact ih further

/-- The namespaces around an absolute one are absolute. -/
theorem Namespace.absolute_of_mem_ascend {ns outer : Namespace} (isAround : outer ∈ ns.toAbsolute.ascend) :
    outer.absolute = true := absolute_of_mem_ascendFrom isAround

theorem TypeName.isAbsolute_under {name : TypeName} {outer : Namespace} (absolute : outer.absolute = true) :
    (name.under outer).isAbsolute = true := by
  cases written : name.scope.absolute <;>
    simp [TypeName.under, Namespace.under, TypeName.isAbsolute, written, absolute]

theorem TypeName.toAbsolute_of_isAbsolute {name : TypeName} (absolute : name.isAbsolute = true) :
    name.toAbsolute = name := by
  obtain ⟨⟨path, written⟩, last⟩ := name
  cases absolute
  rfl

namespace Environment

variable {env : Environment} {name found : TypeName} {context : Namespace}

/-- An absolute name means itself, if anything is declared under it. -/
theorem resolve?_of_isAbsolute (absolute : name.isAbsolute = true) (context : Namespace) :
    env.resolve? name context = if env.isDeclared name then some name else none := if_pos absolute

/-- **What a name means is absolute.** -/
theorem isAbsolute_of_resolve? (resolved : env.resolve? name context = some found) :
    found.isAbsolute = true := by
  cases written : name.isAbsolute with
  | true =>
    rw [resolve?_of_isAbsolute written] at resolved
    obtain ⟨_, same⟩ := Option.ite_none_right_eq_some.1 resolved
    rw [← Option.some.inj same]
    exact written
  | false =>
    rw [resolve?, written] at resolved
    obtain ⟨outer, isAround, rfl⟩ := List.mem_map.1 (List.mem_of_find?_eq_some resolved)
    exact TypeName.isAbsolute_under (Namespace.absolute_of_mem_ascend isAround)

end Environment

namespace Analysis

variable {a : Analysis} {name : TypeName}

theorem isAbsolute_absoluteName (a : Analysis) (context : Namespace) (name : TypeName) :
    (a.absoluteName context name).isAbsolute = true := by
  unfold absoluteName
  cases resolved : a.env.resolve? name context with
  | some found => exact Environment.isAbsolute_of_resolve? resolved
  | none => rfl

/-- An absolute name stays, whether anything is declared under it or not. -/
theorem absoluteName_of_isAbsolute (absolute : name.isAbsolute = true) (context : Namespace) :
    a.absoluteName context name = name := by
  rw [absoluteName, Environment.resolve?_of_isAbsolute absolute]
  by_cases declared : a.env.isDeclared name = true
  · rw [if_pos declared]
    rfl
  · rw [if_neg declared]
    exact TypeName.toAbsolute_of_isAbsolute absolute

end Analysis

end SignatureAlgebra
