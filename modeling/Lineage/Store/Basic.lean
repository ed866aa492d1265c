import Lineage.Declaration
import Lineage.Environment

/-!
# The store

A store grows: names are interned before their classes are defined, a definition is final, and
type variables find their owner when the class or method that lists them is defined. An operation
that can be refused gives the store it leaves behind together with its outcome. Defining a class
looks at everything that could be refused before it changes anything.
-/

namespace Lineage

/-- An interned name with its definition, once there is one. -/
structure Slot where
  name : String
  definition : Option ClassDef := none
  deriving DecidableEq, Repr

structure Store where
  slots : Array Slot := #[]
  /-- The position of every interned name, the newest first. -/
  names : List (String × ClassId) := []
  methods : Array Method := #[]
  typeParams : Array TypeParam := #[]
  wellKnown : WellKnown
  depthLimit : Nat := Settings.defaultDepth
  deriving DecidableEq, Repr

namespace Store

variable (s : Store)

/-! ## Look-ups -/

def classDef? (id : ClassId) : Option ClassDef := s.slots[id.index]?.bind (·.definition)

def method? (id : MethodId) : Option Method := s.methods[id.index]?

def typeParam? (id : TypeVarId) : Option TypeParam := s.typeParams[id.index]?

def className? (id : ClassId) : Option String := s.slots[id.index]?.map (·.name)

/-- The class interned under exactly this name. -/
def idOf? (name : String) : Option ClassId := s.names.lookup name

/-- The class that a source name denotes: the exact name, or, for a name without a dot, the
class of that name in the package that every source imports. -/
def lookup? (name : String) : Option ClassId :=
  match s.idOf? name with
  | some id => some id
  | none => if '.' ∈ name.toList then none else s.idOf? ("java.lang." ++ name)

def isDefined (id : ClassId) : Bool := (s.classDef? id).isSome

/-- The methods that a class lists, in declaration order. -/
def methodsOf (id : ClassId) : List Method :=
  match s.classDef? id with
  | some c => c.methods.filterMap s.method?
  | none => []

/-- The store as an environment for questions. -/
def env : Env where
  classDef? := s.classDef?
  method? := s.method?
  typeParam? := s.typeParam?
  lookup? := s.lookup?
  wellKnown := s.wellKnown
  className? := s.className?
  depthLimit := s.depthLimit
  varCount := s.typeParams.size
  lt_varCount v p h := by
    obtain ⟨lt, -⟩ := Array.getElem?_eq_some_iff.mp h
    exact lt

/-! ## Growth -/

/-- Gives a name its position, a new one only if it has none yet. -/
def intern (name : String) : Store × ClassId :=
  match s.idOf? name with
  | some id => (s, id)
  | none =>
    let id : ClassId := ⟨s.slots.size⟩
    ({ s with slots := s.slots.push { name }, names := (name, id) :: s.names }, id)

/-- Adds a variable without an owner. A variable without a bound is bounded by the top class. -/
def addTypeParam (decl : TypeParamDecl) : Store × TypeVarId :=
  let param : TypeParam :=
    { name := decl.name, bound := decl.bound.getD (.cls s.wellKnown.object), owner := none,
      span := decl.span }
  ({ s with typeParams := s.typeParams.push param }, ⟨s.typeParams.size⟩)

/-- Adds variables in order. -/
def addTypeParams : Store → List TypeParamDecl → Store × List TypeVarId
  | s, [] => (s, [])
  | s, decl :: rest =>
    let (s, v) := s.addTypeParam decl
    let (s, vs) := addTypeParams s rest
    (s, v :: vs)

/-- The variable that must exist. -/
def typeParam (v : TypeVarId) : Except TypeError TypeParam :=
  match s.typeParam? v with
  | some p => pure p
  | none => throw (.internal ("unknown type variable " ++ v.inspect))

/-- Records the owner of a variable that exists; other positions are left alone. -/
def setOwner (owner : Owner) (v : TypeVarId) : Store :=
  match s.typeParam? v with
  | some p =>
    { s with typeParams := s.typeParams.setIfInBounds v.index { p with owner := some owner } }
  | none => s

/-- Gives a variable its owner, which never changes afterwards. -/
def bindTypeParam (v : TypeVarId) (owner : Owner) : Except TypeError Store := do
  let p ← s.typeParam v
  match p.owner with
  | some existing =>
    if existing = owner then pure (s.setOwner owner v)
    else throw (.internal ("type variable " ++ p.name ++ " is already declared by " ++
      existing.inspect))
  | none => pure (s.setOwner owner v)

/-- Gives variables the same owner, one after the other. The first refusal ends the loop; what was
bound before it stays bound. -/
def bindTypeParams (owner : Owner) : Store → List TypeVarId → Store × Except TypeError Unit
  | s, [] => (s, .ok ())
  | s, v :: rest =>
    match s.bindTypeParam v owner with
    | .ok s => bindTypeParams owner s rest
    | .error e => (s, .error e)

/-! ## Definition -/

/-- A variable-arity method ends with an array, and an annotation element is a bare name. -/
def checkMethodDecl (className : String) (d : MethodDecl) : Except TypeError Unit :=
  if d.flags.isVarargs && !d.endsWithArray then
    throw (.internal ("variable-arity method " ++ className ++ "." ++ d.name ++
      " must end with an array parameter"))
  else if d.elementDefault.isSome && !d.isBare then
    throw (.internal ("annotation element " ++ className ++ "." ++ d.name ++
      " declares parameters, throws or type parameters"))
  else pure ()

/-- The variables of a class exist and belong to no one else. -/
def checkClassVars (id : ClassId) : List TypeVarId → Except TypeError Unit
  | [] => pure ()
  | v :: rest => do
    let p ← s.typeParam v
    match p.owner with
    | some owner =>
      if owner = .cls id then checkClassVars id rest
      else throw (.internal ("type variable " ++ p.name ++ " is already declared by Some(" ++
        owner.inspect ++ ")"))
    | none => checkClassVars id rest

/-- The variables of a method exist, have no owner and are not claimed. Returns what is claimed
afterwards. -/
def claimMethodVars (methodName : String) :
    List TypeVarId → List TypeVarId → Except TypeError (List TypeVarId)
  | claimed, [] => pure claimed
  | claimed, v :: rest => do
    let p ← s.typeParam v
    if p.owner.isSome || v ∈ claimed then
      throw (.internal ("type variable " ++ p.name ++ " of method " ++ methodName ++
        " is already declared elsewhere"))
    else claimMethodVars methodName (v :: claimed) rest

/-- No variable is listed by two methods, or by a method and the class. -/
def checkMethodVars : List TypeVarId → List MethodDecl → Except TypeError Unit
  | _, [] => pure ()
  | claimed, d :: rest => do
    let claimed ← s.claimMethodVars d.name claimed d.typeParams
    checkMethodVars claimed rest

/-- The slot that a definition is meant for: interned, open, and under the declared name. -/
def openSlot (id : ClassId) (name : String) : Except TypeError Unit :=
  match s.slots[id.index]? with
  | none => throw (.internal (id.inspect ++ " was never interned"))
  | some slot =>
    if slot.definition.isSome then
      throw (.internal ("class " ++ slot.name ++ " is already defined"))
    else if slot.name ≠ name then
      throw (.internal (id.inspect ++ " is interned as " ++ slot.name ++
        " but the definition is named " ++ name))
    else pure ()

/-- Everything that can refuse a definition. -/
def checkDefinition (id : ClassId) (decl : ClassDecl) : Except TypeError Unit := do
  s.openSlot id decl.name
  decl.methods.forM (checkMethodDecl decl.name)
  s.checkClassVars id decl.typeParams
  s.checkMethodVars decl.typeParams decl.methods

def methodOf (id : MethodId) (container : ClassId) (d : MethodDecl) : Method :=
  { id, container, name := d.name, flags := d.flags, returnType := d.returnType,
    params := d.params, throws := d.throws, typeParams := d.typeParams,
    elementDefault := d.elementDefault, span := d.span }

def fieldOf (container : ClassId) (d : FieldDecl) : Field :=
  { name := d.name, ty := d.ty, flags := d.flags, container, span := d.span }

/-- Makes a new method the owner of its variables and adds it. -/
def addMethod (container : ClassId) (d : MethodDecl) : Store × Except TypeError MethodId :=
  let id : MethodId := ⟨s.methods.size⟩
  match bindTypeParams (.method id) s d.typeParams with
  | (s, .error e) => (s, .error e)
  | (s, .ok _) => ({ s with methods := s.methods.push (methodOf id container d) }, .ok id)

/-- Adds methods in order. -/
def addMethods (container : ClassId) :
    Store → List MethodDecl → Store × Except TypeError (List MethodId)
  | s, [] => (s, .ok [])
  | s, d :: rest =>
    match s.addMethod container d with
    | (s, .error e) => (s, .error e)
    | (s, .ok id) =>
      match addMethods container s rest with
      | (s, .error e) => (s, .error e)
      | (s, .ok ids) => (s, .ok (id :: ids))

/-- A class that names no superclass extends the top class; interfaces and the top class itself
extend nothing. -/
def effectiveSuperclass (id : ClassId) (decl : ClassDecl) : Option Ty :=
  match decl.superclass with
  | some t => some t
  | none =>
    if !decl.flags.isInterface && id ≠ s.wellKnown.object then some (.cls s.wellKnown.object)
    else none

/-- The definition that a declaration turns into once its methods have their positions. -/
def definitionOf (id : ClassId) (decl : ClassDecl) (methods : List MethodId) : ClassDef :=
  { name := decl.name, flags := decl.flags, superclass := s.effectiveSuperclass id decl,
    interfaces := decl.interfaces, outer := decl.outer, typeParams := decl.typeParams,
    fields := decl.fields.map (fieldOf id), methods, span := decl.span }

/-- Closes the slot of a class. -/
def setDefinition (id : ClassId) (c : ClassDef) : Store :=
  { s with slots := s.slots.modify id.index fun slot => { slot with definition := some c } }

/-- Enters a definition: the class gets its variables, then its methods, and its slot last. -/
def enter (id : ClassId) (decl : ClassDecl) : Store × Except TypeError ClassId :=
  match bindTypeParams (.cls id) s decl.typeParams with
  | (s, .error e) => (s, .error e)
  | (s, .ok _) =>
    match addMethods id s decl.methods with
    | (s, .error e) => (s, .error e)
    | (s, .ok methods) => (s.setDefinition id (s.definitionOf id decl methods), .ok id)

/-- Defines an interned class. -/
def define (id : ClassId) (decl : ClassDecl) : Store × Except TypeError ClassId :=
  match s.checkDefinition id decl with
  | .error e => (s, .error e)
  | .ok _ => s.enter id decl

/-- Interns and defines a class. The name stays interned when the definition is refused. -/
def addClass (decl : ClassDecl) : Store × Except TypeError ClassId :=
  let (s, id) := s.intern decl.name
  s.define id decl

end Store

end Lineage
