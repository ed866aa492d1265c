import Lineage.Entity

/-!
# Declarations

What the source says about a class before the store gives it an identity.
-/

namespace Lineage

/-- A field as it is written. -/
structure FieldDecl where
  name : String
  ty : Ty
  flags : Flags := .none
  span : Option Span := none
  deriving DecidableEq, Repr

/-- A method as it is written. -/
structure MethodDecl where
  name : String
  returnType : Ty
  flags : Flags := .none
  params : List Ty := []
  throws : List Ty := []
  typeParams : List TypeVarId := []
  elementDefault : Option Bool := none
  span : Option Span := none
  deriving DecidableEq, Repr

/-- An annotation element is public and abstract. -/
def MethodDecl.annotationElement (name : String) (ty : Ty) (hasDefault : Bool) : MethodDecl :=
  { name, returnType := ty, flags := .pub ∪ .abstract, elementDefault := some hasDefault }

/-- The last parameter is an array. -/
def MethodDecl.endsWithArray (d : MethodDecl) : Bool :=
  match d.params.getLast? with
  | some (.array _) => true
  | _ => false

/-- There are no parameters, exceptions or type parameters. -/
def MethodDecl.isBare (d : MethodDecl) : Bool :=
  d.params.isEmpty && d.throws.isEmpty && d.typeParams.isEmpty

/-- A type parameter as it is written. -/
structure TypeParamDecl where
  name : String
  bound : Option Ty := none
  span : Option Span := none
  deriving DecidableEq, Repr

/-- A class or interface as it is written. -/
structure ClassDecl where
  name : String
  flags : Flags := .none
  superclass : Option Ty := none
  interfaces : List Ty := []
  outer : Option ClassId := none
  typeParams : List TypeVarId := []
  fields : List FieldDecl := []
  methods : List MethodDecl := []
  span : Option Span := none
  deriving DecidableEq, Repr

/-- An interface is abstract. -/
def ClassDecl.interface (name : String) : ClassDecl :=
  { name, flags := .interface ∪ .abstract }

end Lineage
