/-
**Environments: what is declared under which name.**

An environment holds classes and modules, interfaces and aliases, and the arena that their signatures
live in. Declaring a name again replaces what was declared; the tables are read from the front, so a
declaration is put there. Members are complete: nothing is looked up along ancestors, inherited members
are copied, each overload with the origin it was defined with.

* `Environment.declareClass`, `declareInterface`, `declareAlias` — declare a name.
* `Environment.defineMethod`, `inheritMethods` — add members to a declared name.
* `Environment.resolve?` — the declared name that a name means inside a namespace.
-/
import SignatureAlgebra.Declared.Arena
import SignatureAlgebra.Error
import SignatureAlgebra.MethodType

namespace SignatureAlgebra

/-- Whether a declared name is a class or a module. -/
inductive ClassForm where
  | ofClass
  | ofModule
deriving DecidableEq, Repr

/-- A declared overload and where it was defined. -/
structure DeclaredOverload where
  signature : DeclaredMethod NodeId
  origin : Origin
deriving DecidableEq

/-- A member: its name, whether it is private, and its overloads in order. -/
structure Member where
  name : Name
  isPrivate : Bool
  overloads : List DeclaredOverload
deriving DecidableEq

/-- The type parameters and the members of what is declared, members in the order of definition. -/
structure Definition where
  typeParams : List Name
  members : List Member
deriving DecidableEq

/-- A declared class or module: the members of its instances and those of itself. -/
structure ClassEntry where
  form : ClassForm
  instances : Definition
  singleton : Definition
deriving DecidableEq

/-- Everything that is declared. -/
structure Environment where
  arena : Arena
  classes : List (TypeName × ClassEntry)
  interfaces : List (TypeName × Definition)
  aliases : List (TypeName × NodeId)

/-- Puts a member in the place of the first one of its name, or behind all others if there is none. -/
def Member.put (member : Member) : List Member → List Member
  | [] => [member]
  | old :: rest => if old.name = member.name then member :: rest else old :: member.put rest

namespace Definition

def member? (d : Definition) (name : Name) : Option Member := d.members.find? (·.name = name)

def define (d : Definition) (member : Member) : Definition := { d with members := member.put d.members }

/-- Adds a member unless there is one of its name. -/
def offer (d : Definition) (member : Member) : Definition :=
  if (d.member? member.name).isSome then d else { d with members := d.members ++ [member] }

/-- Adds the members whose name is not taken, in order. -/
def inherit (d : Definition) (members : List Member) : Definition := members.foldl offer d

end Definition

namespace Environment

def empty (arenaId : Nat) : Environment := ⟨.empty arenaId, [], [], []⟩

/-! ### Reading -/

def class? (env : Environment) (name : TypeName) : Option ClassEntry := env.classes.lookup name

/-- Whether a name is a class or a module, if it is either. -/
def classForm? (env : Environment) (name : TypeName) : Option ClassForm :=
  (env.class? name).map ClassEntry.form

/-- The members of the instances of a class or module. -/
def instanceDefinition (env : Environment) (name : TypeName) : Except Error Definition :=
  match env.class? name with
  | some entry => .ok entry.instances
  | none => .error (.unknownType name)

/-- The members of a class or module itself; the type parameters are those of the class. -/
def singletonDefinition (env : Environment) (name : TypeName) : Except Error Definition :=
  match env.class? name with
  | some entry => .ok entry.singleton
  | none => .error (.unknownType name)

/-- The members of an interface. -/
def interfaceDefinition (env : Environment) (name : TypeName) : Except Error Definition :=
  match env.interfaces.lookup name with
  | some definition => .ok definition
  | none => .error (.unknownType name)

/-- The node that an alias stands for. -/
def aliasBody (env : Environment) (name : TypeName) : Except Error NodeId :=
  match env.aliases.lookup name with
  | some body => .ok body
  | none => .error (.unknownAlias name)

/-- Whether anything is declared under a name. -/
def isDeclared (env : Environment) (name : TypeName) : Bool :=
  (env.classes.lookup name).isSome || (env.interfaces.lookup name).isSome ||
    (env.aliases.lookup name).isSome

/-- The declared name that `name` means inside `context`. An absolute name means itself; a relative
one is tried in the namespace and in those around it, innermost first. -/
def resolve? (env : Environment) (name : TypeName) (context : Namespace) : Option TypeName :=
  if name.isAbsolute then if env.isDeclared name then some name else none
  else (context.toAbsolute.ascend.map name.under).find? env.isDeclared

/-! ### Declaring -/

/-- Declares a class or module without members. -/
def declareClass (env : Environment) (name : TypeName) (form : ClassForm) (typeParams : List Name) :
    Environment :=
  { env with classes := (name, ⟨form, ⟨typeParams, []⟩, ⟨typeParams, []⟩⟩) :: env.classes }

def declareInterface (env : Environment) (name : TypeName) (typeParams : List Name) : Environment :=
  { env with interfaces := (name, ⟨typeParams, []⟩) :: env.interfaces }

def declareAlias (env : Environment) (name : TypeName) (body : NodeId) : Environment :=
  { env with aliases := (name, body) :: env.aliases }

/-- The definition that a member at that level of `owner` belongs to. A class or module hides an
interface of its name, and an interface has instance members only. -/
def membersOf (env : Environment) (owner : TypeName) (level : MemberLevel) : Except Error Definition :=
  match env.class? owner, level with
  | some entry, .ofInstance => .ok entry.instances
  | some entry, .ofSingleton => .ok entry.singleton
  | none, .ofInstance => env.interfaceDefinition owner
  | none, .ofSingleton => .error (.unknownType owner)

/-- Replaces the definition that a member at that level of `owner` belongs to. -/
def setMembersOf (env : Environment) (owner : TypeName) (level : MemberLevel)
    (definition : Definition) : Environment :=
  match env.class? owner, level with
  | some entry, .ofInstance =>
    { env with classes := (owner, { entry with instances := definition }) :: env.classes }
  | some entry, .ofSingleton =>
    { env with classes := (owner, { entry with singleton := definition }) :: env.classes }
  | none, _ => { env with interfaces := (owner, definition) :: env.interfaces }

/-- Defines a method, in place of the member of its name. Every overload gets this definition as its
origin. -/
def defineMethod (env : Environment) (owner : TypeName) (level : MemberLevel) (name : Name)
    (isPrivate : Bool) (signatures : List (DeclaredMethod NodeId)) : Except Error Environment := do
  let definition ← env.membersOf owner level
  let overloads := signatures.map fun signature => ⟨signature, ⟨owner, level⟩⟩
  return env.setMembersOf owner level (definition.define ⟨name, isPrivate, overloads⟩)

/-- Copies to `target` the members of `source` whose name it does not have, with their origins. -/
def inheritMethods (env : Environment) (source target : TypeName) (level : MemberLevel) :
    Except Error Environment := do
  let inherited ← env.membersOf source level
  let definition ← env.membersOf target level
  return env.setMembersOf target level (definition.inherit inherited.members)

end Environment

end SignatureAlgebra
