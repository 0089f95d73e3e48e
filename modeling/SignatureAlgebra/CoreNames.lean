/-
**Well-known names.**

The classes behind literals, tuples, records, procs and truth values, and the methods that are treated
apart. Someone with other base classes replaces single fields of `CoreNames.standard`.
-/
import SignatureAlgebra.Ty.Compound

namespace SignatureAlgebra

/-- The names of the base classes and of the methods that are treated apart. -/
structure CoreNames where
  object : TypeName
  basicObject : TypeName
  moduleClass : TypeName
  nilClass : TypeName
  trueClass : TypeName
  falseClass : TypeName
  integer : TypeName
  string : TypeName
  symbol : TypeName
  array : TypeName
  hash : TypeName
  proc : TypeName
  elementGet : Name
  elementSet : Name
  first : Name
  last : Name
  call : Name
  isA : Name
  kindOf : Name
  instanceOf : Name
  isNil : Name
  not : Name
  caseEq : Name
deriving DecidableEq, Repr

namespace CoreNames

/-- The usual base classes, each at top level, and methods. -/
def standard : CoreNames :=
  let topLevel (text : String) : TypeName := .topLevel (.wellKnown text)
  { object := topLevel "Object"
    basicObject := topLevel "BasicObject"
    moduleClass := topLevel "Module"
    nilClass := topLevel "NilClass"
    trueClass := topLevel "TrueClass"
    falseClass := topLevel "FalseClass"
    integer := topLevel "Integer"
    string := topLevel "String"
    symbol := topLevel "Symbol"
    array := topLevel "Array"
    hash := topLevel "Hash"
    proc := topLevel "Proc"
    elementGet := .wellKnown "[]"
    elementSet := .wellKnown "[]="
    first := .wellKnown "first"
    last := .wellKnown "last"
    call := .wellKnown "call"
    isA := .wellKnown "is_a?"
    kindOf := .wellKnown "kind_of?"
    instanceOf := .wellKnown "instance_of?"
    isNil := .wellKnown "nil?"
    not := .wellKnown "!"
    caseEq := .wellKnown "===" }

def literalOwner (core : CoreNames) : Literal → TypeName
  | .integer _ => core.integer
  | .string _ => core.string
  | .symbol _ => core.symbol
  | .boolean true => core.trueClass
  | .boolean false => core.falseClass

def arrayOf (core : CoreNames) (element : Ty) : Ty := .instanceOf core.array [element]

def hashOf (core : CoreNames) (key value : Ty) : Ty := .instanceOf core.hash [key, value]

/-- The classes of the truth values, each once. -/
def booleanClasses (core : CoreNames) : List TypeName :=
  if core.trueClass = core.falseClass then [core.trueClass] else [core.trueClass, core.falseClass]

def booleans (core : CoreNames) : Ty := .union (core.booleanClasses.map fun name => .instanceOf name [])

end CoreNames

end SignatureAlgebra
