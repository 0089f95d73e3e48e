/-
**An index beside the texts.**

To find a text in an interner is to search through its texts. To find it at once, an index is kept beside the
texts, with the place of each. A new text is written to both tables, and nothing else keeps the two in step.

* `Interner.Tables` — the two tables; `Tables.find?` asks the index, `Tables.text?` the texts.
* `Tables.tryIntern` — one text, within the largest index of a name.
* `Interner.internEach` — texts one after the other, up to the first one that is refused.
* `Tables.initial` — the tables in which the well-known texts were interned.
-/
import SignatureAlgebra.Name

namespace SignatureAlgebra.Interner

/-- Interns texts one after the other, up to the first refusal; gives the name of each. -/
def internEach {σ : Type} (intern : σ → String → Except InternError (Name × σ)) :
    List String → σ → Except InternError (List Name × σ)
  | [], store => return ([], store)
  | text :: rest, store => do
    let (name, store) ← intern store text
    let (more, store) ← internEach intern rest store
    return (name :: more, store)

/-- The texts met so far, and an index of them. -/
structure Tables where
  /-- The place of each text, the latest entry first. -/
  index : List (String × Nat)
  texts : List String
deriving Repr

namespace Tables

/-- Nothing but the empty text. -/
def blank : Tables := ⟨[("", 0)], [""]⟩

def size (tables : Tables) : Nat := tables.texts.length

/-- The name of a text that is in the index. -/
def find? (tables : Tables) (text : String) : Option Name := (tables.index.lookup text).map Name.mk

/-- The text at the place of a name. -/
def text? (tables : Tables) (name : Name) : Option String := tables.texts[name.index]?

/-- Interns within the largest index: a new text goes to the end of the texts, and its place into the index. -/
def tryIntern (tables : Tables) (text : String) : Except InternError (Name × Tables) :=
  match tables.find? text with
  | some name => .ok (name, tables)
  | none =>
    if maxIndex < tables.size then .error (.overflow tables.size)
    else .ok (⟨tables.size⟩, ⟨(text, tables.size) :: tables.index, tables.texts ++ [text]⟩)

/-- The tables in which the well-known texts were interned. -/
def initial : Tables :=
  match internEach tryIntern wellKnownTexts blank with
  | .ok (_, tables) => tables
  | .error _ => blank

end Tables

end SignatureAlgebra.Interner
