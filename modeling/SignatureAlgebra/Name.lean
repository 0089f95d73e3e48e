/-
**Names: texts, each kept once and known by its position.**

An interner is the list of the texts met so far, in the order in which they were first met. A name
is a position in that list, so two names of one interner are equal exactly when their texts are, and
names are ordered by first appearance.

* `Interner.initial` — the empty text, then the well-known class and method names.
* `Interner.intern` — finds a text, or appends it; `Interner.tryIntern` — the same within the
  largest index a name can have.
* `Name.wellKnown` — the name that a well-known text has in every interner.
-/

namespace SignatureAlgebra

/-- A name is the position of its text in an interner. -/
structure Name where
  index : Nat
deriving DecidableEq, Repr

namespace Name

def empty : Name := ⟨0⟩

instance : Inhabited Name := ⟨empty⟩

/-- How a name is shown when its interner is not at hand. -/
def debugText (name : Name) : String := "Name(" ++ toString name.index ++ ")"

end Name

/-- The texts met so far, each once, in the order in which they were first met. -/
structure Interner where
  texts : List String
deriving Repr

/-- An interner whose names are used up. -/
inductive InternError where
  | overflow (count : Nat)
deriving DecidableEq, Repr

namespace Interner

/-- The largest index of a name. -/
def maxIndex : Nat := 4294967295

/-- The texts that every interner starts with, after the empty one. -/
def wellKnownTexts : List String :=
  ["Object", "BasicObject", "Module", "Class", "Kernel", "NilClass", "TrueClass", "FalseClass",
    "Integer", "String", "Symbol", "Array", "Hash", "Proc", "[]", "[]=", "first", "last", "call",
    "is_a?", "kind_of?", "instance_of?", "nil?", "!", "==="]

/-- An interner that has met nothing but the empty text and the well-known ones. -/
def initial : Interner := ⟨"" :: wellKnownTexts⟩

def size (names : Interner) : Nat := names.texts.length

def isEmpty (names : Interner) : Bool := names.size ≤ 1

/-- The name of a text that is interned. -/
def find? (names : Interner) (text : String) : Option Name :=
  (names.texts.idxOf? text).map Name.mk

/-- The text of a name that this interner has given out. -/
def text? (names : Interner) (name : Name) : Option String := names.texts[name.index]?

/-- The text of a name; the empty text for a name that this interner has not given out. -/
def text (names : Interner) (name : Name) : String := (names.text? name).getD ""

/-- The name of a text, which is appended if it is new. -/
def intern (names : Interner) (text : String) : Name × Interner :=
  match names.find? text with
  | some name => (name, names)
  | none => (⟨names.size⟩, ⟨names.texts ++ [text]⟩)

/-- Interns within the largest index: a new text is refused once every index is used. -/
def tryIntern (names : Interner) (text : String) : Except InternError (Name × Interner) :=
  if (names.find? text).isNone ∧ maxIndex < names.size then .error (.overflow names.size)
  else .ok (names.intern text)

end Interner

/-- The wording of a refusal to intern. -/
def InternError.message : InternError → String
  | .overflow count =>
    "interner exceeded capacity: " ++ toString count ++ " strings, max is " ++
      toString Interner.maxIndex

/-- The name that a well-known text has in every interner. -/
def Name.wellKnown (text : String) : Name := (Interner.initial.find? text).getD .empty

end SignatureAlgebra
