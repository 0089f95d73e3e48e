/-
**How types and parameter lists are written.**

A type is written layer by layer (`Ty.text`), a parameter list as
`(A, ?B, *C, k: D, ?l: E, **F)` (`Params.text`).
-/
import SignatureAlgebra.Ty.Compound

namespace SignatureAlgebra

def separated (mark : String) (texts : List String) : String := mark.intercalate texts

def Base.text : Base → String
  | any => "untyped"
  | top => "top"
  | bottom => "bot"
  | boolean => "bool"
  | void => "void"
  | nil => "nil"

def Placeholder.text : Placeholder → String
  | selfType => "self"
  | instanceType => "instance"
  | classType => "class"

def Connective.mark : Connective → String
  | union => " | "
  | intersection => " & "

def Evidence.text : Evidence → String
  | receiverIsArg => "bool(receiver is arg)"
  | receiverIsNil => "bool(receiver is nil)"
  | not => "bool(not receiver)"
  | argIsReceiver => "bool(arg is receiver)"

/-- Writes a parameter list whose types are written already. -/
def Params.text (names : Interner) (p : Params String) : String :=
  let keyword (mark : String) (binding : Name × String) : String :=
    mark ++ names.text binding.1 ++ ": " ++ binding.2
  "(" ++ separated ", "
    (p.required ++ p.optional.map ("?" ++ ·) ++ p.rest.toList.map ("*" ++ ·) ++
      p.keywords.toList.map (keyword "") ++ p.optionalKeywords.toList.map (keyword "?") ++
      p.restKeywords.toList.map ("**" ++ ·)) ++ ")"

/-- Writes the key of a record field: a symbol as a label, any other literal before an arrow. -/
def Literal.keyText (names : Interner) : Literal → String
  | .symbol text => names.text text ++ ": "
  | key => key.text names ++ " => "

/-- Writes a layer whose types are written already. -/
def Shape.text (names : Interner) : Shape String → String
  | base word => word.text
  | placeholder word => word.text
  | var name => names.text name
  | literal value => value.text names
  | logic evidence => evidence.text
  | singleton name => "singleton(" ++ name.text names ++ ")"
  | applied _ name args =>
    name.text names ++ if args.isEmpty then "" else "[" ++ separated ", " args ++ "]"
  | compound connective members => "(" ++ separated connective.mark members ++ ")"
  | tuple members => "[" ++ separated ", " members ++ "]"
  | record fields =>
    "\x7b " ++ separated ", " (fields.map fun field => field.1.keyText names ++ field.2) ++ " \x7d"
  | proc params result => "^" ++ params.text names ++ " -> " ++ result

def Ty.text (names : Interner) (t : Ty) : String := t.fold (Shape.text names)

/-- Writes the types of a parameter list and the list around them. -/
def Params.typesText (names : Interner) (p : Params Ty) : String := (p.map (Ty.text names)).text names

end SignatureAlgebra
