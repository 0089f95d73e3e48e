/-
**Qualified type names: a namespace and a last segment.**

A name as written is usually relative (`Foo::Bar`); resolved against the namespace it stands in, it
becomes absolute (`::Foo::Bar`).

* `Namespace.ascend` — a namespace and those around it, innermost first.
* `Namespace.under`, `TypeName.under` — a relative path continued from another namespace.
* `TypeName.ofText`, `TypeName.text` — reading cuts at every `::`, writing puts it back.
-/
import SignatureAlgebra.Name

namespace SignatureAlgebra

/-- A namespace: the segments that lead to it, from the root if it is absolute. -/
structure Namespace where
  path : List Name
  absolute : Bool
deriving DecidableEq, Repr

/-- The name of a class, module, interface or alias: the namespace it lies in and its own segment. -/
structure TypeName where
  scope : Namespace
  name : Name
deriving DecidableEq, Repr

namespace Namespace

/-- The namespace around all others, written `::`. -/
def root : Namespace := ⟨[], true⟩

def empty : Namespace := ⟨[], false⟩

def isRoot (ns : Namespace) : Bool := ns.absolute && ns.path.isEmpty

def isEmpty (ns : Namespace) : Bool := ns.path.isEmpty

/-- The namespace that `name` opens inside this one. -/
def append (ns : Namespace) (name : Name) : Namespace := { ns with path := ns.path ++ [name] }

/-- The namespace just around this one; a namespace without segments has none. -/
def parent? (ns : Namespace) : Option Namespace :=
  if ns.path.isEmpty then none else some { ns with path := ns.path.dropLast }

/-- The first `count` segments, then one fewer at a time, down to none. -/
def ascendFrom (ns : Namespace) : Nat → List Namespace
  | 0 => [{ ns with path := [] }]
  | count + 1 => { ns with path := ns.path.take (count + 1) } :: ns.ascendFrom count

/-- This namespace and those around it, innermost first. -/
def ascend (ns : Namespace) : List Namespace := ns.ascendFrom ns.path.length

/-- The same path counted from the root. -/
def toAbsolute (ns : Namespace) : Namespace := { ns with absolute := true }

/-- Continues `outer` by this namespace if it is relative; an absolute one stays. -/
def under (ns outer : Namespace) : Namespace :=
  if ns.absolute then ns else ⟨outer.path ++ ns.path, outer.absolute⟩

/-- Writes a namespace: every segment is followed by `::`, and the root starts with it. -/
def text (names : Interner) (ns : Namespace) : String :=
  (if ns.absolute then "::" else "") ++ String.join (ns.path.map fun name => names.text name ++ "::")

end Namespace

namespace TypeName

/-- A relative name of one segment. -/
def simple (name : Name) : TypeName := ⟨.empty, name⟩

/-- An absolute name of one segment. -/
def topLevel (name : Name) : TypeName := ⟨.root, name⟩

instance : Inhabited TypeName := ⟨simple .empty⟩

def isAbsolute (name : TypeName) : Bool := name.scope.absolute

/-- The same path counted from the root. -/
def toAbsolute (name : TypeName) : TypeName := { name with scope := name.scope.toAbsolute }

/-- Continues `outer` by this name if it is relative; an absolute one stays. -/
def under (name : TypeName) (outer : Namespace) : TypeName :=
  { name with scope := name.scope.under outer }

/-- The namespace that this name opens. -/
def toNamespace (name : TypeName) : Namespace := name.scope.append name.name

/-- Writes a name. -/
def text (names : Interner) (name : TypeName) : String :=
  name.scope.text names ++ names.text name.name

/-- Cuts at every `::`, from the left; there is always a last piece, perhaps empty. -/
def cut : List Char → List Char × List (List Char)
  | [] => ([], [])
  | ':' :: ':' :: rest => let (first, more) := cut rest; ([], first :: more)
  | c :: rest => let (first, more) := cut rest; (c :: first, more)

/-- Whether a text starts at the root, and what follows the `::` that says so. -/
def splitRoot : List Char → Bool × List Char
  | ':' :: ':' :: rest => (true, rest)
  | text => (false, text)

def internAll : List (List Char) → StateM Interner (List Name)
  | [] => return []
  | segment :: rest => do
    let name ← modifyGet fun names : Interner => names.intern (String.ofList segment)
    return name :: (← internAll rest)

/-- Reads a name. A leading `::` makes it absolute; what follows is cut at every `::`, and the last
piece is the name's own segment. Every text is a name: segments may be empty or hold single
colons. -/
def ofText (text : String) : StateM Interner TypeName := do
  let (absolute, rest) := splitRoot text.toList
  let (first, more) := cut rest
  let segments ← internAll (first :: more)
  return ⟨⟨segments.dropLast, absolute⟩, segments.getLastD .empty⟩

end TypeName

end SignatureAlgebra
