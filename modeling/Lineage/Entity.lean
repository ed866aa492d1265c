import Lineage.Flags
import Lineage.Ty

/-!
# Classes, fields, methods and type parameters

The frozen entities of a store. A class lists its fields itself and its methods by position;
supertype links are types, because a link may be a name that is resolved only when it is
followed.
-/

namespace Lineage

/-- A field of a defined class. -/
structure Field where
  name : String
  ty : Ty
  flags : Flags
  container : ClassId
  span : Option Span
  deriving DecidableEq, Repr

/-- A method of a defined class. `elementDefault` is present for annotation elements only and
says whether the element has a default value. -/
structure Method where
  id : MethodId
  container : ClassId
  name : String
  flags : Flags
  returnType : Ty
  params : List Ty
  throws : List Ty
  typeParams : List TypeVarId
  elementDefault : Option Bool
  span : Option Span
  deriving DecidableEq, Repr

namespace Method

def isVarargs (m : Method) : Bool := m.flags.isVarargs
def isStatic (m : Method) : Bool := m.flags.isStatic
def isFinal (m : Method) : Bool := m.flags.isFinal
def isGeneric (m : Method) : Bool := !m.typeParams.isEmpty
def isAnnotationElement (m : Method) : Bool := m.elementDefault.isSome
def hasDefault (m : Method) : Bool := m.elementDefault.getD false

/-- The two methods take the same parameter types. -/
def sameParams (m₁ m₂ : Method) : Bool := m₁.params == m₂.params

end Method

/-- A defined class or interface. -/
structure ClassDef where
  name : String
  flags : Flags
  superclass : Option Ty
  interfaces : List Ty
  outer : Option ClassId
  typeParams : List TypeVarId
  fields : List Field
  methods : List MethodId
  span : Option Span
  deriving DecidableEq, Repr

namespace ClassDef

def isInterface (c : ClassDef) : Bool := c.flags.isInterface
def isFinal (c : ClassDef) : Bool := c.flags.isFinal
def isEnum (c : ClassDef) : Bool := c.flags.isEnum

/-- The package: what stands before the last dot of the name, if there is a dot. -/
def package (c : ClassDef) : Option String :=
  match c.name.toList.reverse.dropWhile (· != '.') with
  | [] => none
  | _ :: rest => some (String.ofList rest.reverse)

/-- The first field of that name. -/
def field? (c : ClassDef) (name : String) : Option Field :=
  c.fields.find? fun f => f.name == name

end ClassDef

/-- The class or method that declares a type variable. -/
inductive Owner where
  | cls (id : ClassId)
  | method (id : MethodId)
  deriving DecidableEq, Repr

def Owner.inspect : Owner → String
  | cls id => "Class(" ++ id.inspect ++ ")"
  | method id => "Method(" ++ id.inspect ++ ")"

/-- A type variable with its bound and, once it is declared, its owner. -/
structure TypeParam where
  name : String
  bound : Ty
  owner : Option Owner
  span : Option Span
  deriving DecidableEq, Repr

/-- The classes that the rules of the language mention by name. -/
structure WellKnown where
  object : ClassId
  string : ClassId
  classType : ClassId
  throwable : ClassId
  exception : ClassId
  runtimeException : ClassId
  error : ClassId
  cloneable : ClassId
  serializable : ClassId
  enum : ClassId
  number : ClassId
  integer : ClassId
  deriving DecidableEq, Repr

/-- The well-known classes in their fixed order. -/
def WellKnown.toList (w : WellKnown) : List ClassId :=
  [w.object, w.string, w.classType, w.throwable, w.exception, w.runtimeException, w.error,
   w.cloneable, w.serializable, w.enum, w.number, w.integer]

end Lineage
