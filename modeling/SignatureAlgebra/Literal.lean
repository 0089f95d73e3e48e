/-
**Literal values that are types of their own.**

Strings and symbols are kept as names, so comparing two literals compares indices.

* `Literal.text` — how a literal is written; a string is quoted (`Quoted.quote`).
-/
import SignatureAlgebra.Name
import SignatureAlgebra.Text.Quoted

namespace SignatureAlgebra

/-- A literal value: a whole number, a string, a symbol or a truth value. -/
inductive Literal where
  | integer (value : Int)
  | string (text : Name)
  | symbol (text : Name)
  | boolean (value : Bool)
deriving DecidableEq, Repr

/-- Writes a literal: `1`, `"text"`, `:text`, `true`. -/
def Literal.text (names : Interner) : Literal → String
  | .integer value => toString value
  | .string text => Quoted.quote (names.text text)
  | .symbol text => ":" ++ names.text text
  | .boolean true => "true"
  | .boolean false => "false"

end SignatureAlgebra
