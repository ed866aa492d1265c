import Lineage.Descent

/-!
# Declarations of generic classes

No class extends an enum, the top class and exceptions are not generic, and the type parameters
of one declaration have different names.
-/

namespace Lineage.Env

variable (env : Env)

/-- The variables, all of which must exist. -/
def typeParamsOf : List TypeVarId → Except TypeError (List TypeParam)
  | [] => pure []
  | v :: rest =>
    match env.typeParam? v with
    | none => throw (.internal ("unknown type variable " ++ v.inspect))
    | some p => do
      let others ← typeParamsOf rest
      pure (p :: others)

/-- The second parameter of the first name that is declared twice. -/
def duplicate? : List TypeParam → Option TypeParam
  | [] => none
  | p :: rest =>
    match rest.find? fun q => p.name == q.name with
    | some q => some q
    | none => duplicate? rest

/-- The type parameters of one declaration have different names. -/
def checkDuplicates (vars : List TypeVarId) : Except TypeError Unit := do
  let params ← env.typeParamsOf vars
  match duplicate? params with
  | some p =>
    throw (.illegalGenericDeclaration .duplicateTypeVariable
      ("duplicate type variable declaration \"" ++ p.name ++ "\"") p.span)
  | none => pure ()

/-- The class that a declaration extends, if it extends one. -/
def declaredSuperclass (id : ClassId) : Option Ty → Except TypeError (Option ClassId)
  | none => pure none
  | some (.cls parent) => pure (some parent)
  | some (.named name) => some <$> env.find name
  | some t =>
    throw (.internal ("superclass of " ++ env.displayName id ++ " is not a class type: " ++
      t.inspect))

/-- A class may not extend an enum. -/
def checkNotEnum (parent : Option ClassId) (span : Option Span) : Except TypeError Unit := do
  match parent with
  | none => pure ()
  | some parent =>
    let c ← env.classDef parent
    if c.isEnum then
      throw (.illegalGenericDeclaration .extendsEnum ("cannot extend enum type " ++ c.name) span)

/-- A generic class is no exception. -/
def checkNotThrowable (parent : Option ClassId) (span : Option Span) :
    Except TypeError Unit := do
  match parent with
  | none => pure ()
  | some parent =>
    if ← env.isThrowable (.cls parent) then
      throw (.illegalGenericDeclaration .genericThrowable
        "cannot subclass java.lang.Throwable or any of its subtypes with a generic class" span)

/-- The header of a class declaration obeys the rules. -/
def checkClassHeader (id : ClassId) (superclass : Option Ty) (vars : List TypeVarId)
    (span : Option Span) : Except TypeError Unit := do
  let parent ← env.declaredSuperclass id superclass
  env.checkNotEnum parent span
  if vars.isEmpty then pure ()
  else if id = env.wellKnown.object then
    throw (.illegalGenericDeclaration .genericObject
      ("type " ++ env.displayName id ++ " cannot declare type variables") span)
  else do
    env.checkNotThrowable parent span
    env.checkDuplicates vars

end Lineage.Env
