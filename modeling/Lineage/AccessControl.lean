import Lineage.Descent

/-!
# Access control

Whether code in one class may use a member of another. Public members are open to all; within
one nest of lexically enclosed classes everything is; package members are open to the package,
protected members to subclasses.
-/

namespace Lineage

/-- Where code stands: its class and the classes around it. -/
structure AccessContext where
  current : ClassId
  enclosing : List ClassId := []
  deriving DecidableEq, Repr

namespace AccessContext

/-- The context of code in a class, with the classes that enclose it. -/
def forClass (env : Env) (current : ClassId) : Except TypeError AccessContext := do
  let enclosing ← env.enclosingClasses current
  pure { current, enclosing }

/-- The code stands in the class or in a class nested in it. -/
def isWithin (ctx : AccessContext) (id : ClassId) : Bool :=
  ctx.current == id || ctx.enclosing.contains id

end AccessContext

namespace Env

variable (env : Env)

/-- The two classes are in the same package. -/
def samePackage (a b : ClassId) : Except TypeError Bool := do
  let ca ← env.classDef a
  let cb ← env.classDef b
  pure (ca.package == cb.package)

/-- Neither class encloses the other: package access asks for the same package, protected access
for a subclass. -/
def isOpenTo (id : ClassId) (flags : Flags) (current : ClassId) : Except TypeError Bool := do
  let inPackage ← if flags.isPackage then env.samePackage id current else pure false
  if inPackage then pure true
  else if flags.isProtected then env.descends (.cls current) (.cls id)
  else pure false

/-- Code in `ctx` may use a member of `target` that carries `flags`. -/
def isAccessible (target : Ty) (flags : Flags) (ctx : AccessContext) :
    Except TypeError Bool := do
  target.ensureCanonical
  if flags.isPublic || target == .cls ctx.current then pure true
  else
    match target with
    | .cls id => do
      if ctx.isWithin id then pure true
      else if ← env.isEnclosed id ctx.current then pure true
      else env.isOpenTo id flags ctx.current
    | _ => pure false

end Env

end Lineage
