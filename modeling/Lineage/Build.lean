import Lineage.GenericDeclaration
import Lineage.Override
import Lineage.Store.Basic

/-!
# Building a class in passes

A class is declared, so that others can mention it; then attached to its supertypes; then given
its members; and at last defined and checked. Each pass turns one value into the next, so no
pass can be skipped or repeated.
-/

namespace Lineage

/-- A class whose name and type parameters are known. -/
structure DeclaredClass where
  id : ClassId
  decl : ClassDecl
  typeParams : List TypeVarId
  deriving DecidableEq, Repr

/-- A class whose supertypes are known and whose members are being collected. -/
structure AttachedClass where
  id : ClassId
  decl : ClassDecl
  methods : List MethodDecl := []
  deriving DecidableEq, Repr

/-- A class with all its members, ready to be defined. -/
structure AssembledClass where
  id : ClassId
  decl : ClassDecl
  methods : List MethodDecl
  deriving DecidableEq, Repr

/-- A class that has been defined and whose methods override legally. -/
structure CheckedClass where
  id : ClassId
  deriving DecidableEq, Repr

/-- The first pass: the name is interned and the type parameters are added without an owner. -/
def Store.declare (s : Store) (decl : ClassDecl) (params : List TypeParamDecl) :
    Store × DeclaredClass :=
  let (s, id) := s.intern decl.name
  let (s, typeParams) := s.addTypeParams params
  (s, { id, decl, typeParams })

namespace DeclaredClass

/-- The declared variables belong to no one but the class. -/
def checkOwners (d : DeclaredClass) (s : Store) : List TypeVarId → Except TypeError Unit
  | [] => pure ()
  | v :: rest =>
    match (s.typeParam? v).bind (·.owner) with
    | some owner =>
      if owner = .cls d.id then checkOwners d s rest
      else throw (.internal ("type variable " ++ v.inspect ++ " of " ++ s.env.displayName d.id ++
        " is already declared by Some(" ++ owner.inspect ++ ")"))
    | none => checkOwners d s rest

/-- The declaration with its supertypes: a superclass replaces the one already written, interfaces
come after those already written. The type parameters are the declared ones. -/
def attachedDecl (d : DeclaredClass) (superclass : Option Ty) (interfaces : List Ty) : ClassDecl :=
  { d.decl with
    typeParams := d.typeParams
    superclass := superclass.or d.decl.superclass
    interfaces := d.decl.interfaces ++ interfaces }

/-- The second pass: the header is checked, and the variables get their owner. -/
def attach (d : DeclaredClass) (s : Store) (superclass : Option Ty) (interfaces : List Ty) :
    Store × Except TypeError AttachedClass :=
  let decl := d.attachedDecl superclass interfaces
  match s.env.checkClassHeader d.id decl.superclass d.typeParams d.decl.span with
  | .error e => (s, .error e)
  | .ok _ =>
    match d.checkOwners s d.typeParams with
    | .error e => (s, .error e)
    | .ok _ =>
      match s.bindTypeParams (.cls d.id) d.typeParams with
      | (s, .error e) => (s, .error e)
      | (s, .ok _) => (s, .ok { id := d.id, decl })

end DeclaredClass

namespace AttachedClass

/-- Adds a variable for one of the methods to come, which owns it once the class is defined. -/
def methodTypeParam (_ : AttachedClass) (s : Store) (decl : TypeParamDecl) : Store × TypeVarId :=
  s.addTypeParam decl

def addField (a : AttachedClass) (field : FieldDecl) : AttachedClass :=
  { a with decl := { a.decl with fields := a.decl.fields ++ [field] } }

def addMethod (a : AttachedClass) (method : MethodDecl) : AttachedClass :=
  { a with methods := a.methods ++ [method] }

/-- The third pass: no more members. -/
def assemble (a : AttachedClass) : AssembledClass :=
  { id := a.id, decl := a.decl, methods := a.methods }

end AttachedClass

/-- Each method overrides legally whatever it overrides. -/
def Env.checkOverrides (env : Env) (methods : List Method) : Except TypeError Unit :=
  methods.forM fun mi => do
    let overridden ← env.overriddenMethods mi
    overridden.forM fun mj => do
      let _ ← env.canOverride mi mj false

namespace AssembledClass

/-- The declaration with the collected methods after those already written. -/
def fullDecl (b : AssembledClass) : ClassDecl :=
  { b.decl with methods := b.decl.methods ++ b.methods }

/-- The last pass defines the class and then checks its methods against those they override. A
class that fails this check stays defined. -/
def check (b : AssembledClass) (s : Store) : Store × Except TypeError CheckedClass :=
  match b.methods.forM fun m => s.env.checkDuplicates m.typeParams with
  | .error e => (s, .error e)
  | .ok _ =>
    match s.define b.id b.fullDecl with
    | (s, .error e) => (s, .error e)
    | (s, .ok id) =>
      match s.env.checkOverrides (s.methodsOf id) with
      | .error e => (s, .error e)
      | .ok _ => (s, .ok { id })

end AssembledClass

end Lineage
