import Lineage.Conversion
import Lineage.Substitution

/-!
# Overriding

When a method may stand in for one with the same signature further up: the rules are tried in a
fixed order and the first one that is broken is reported. The type parameters of the two methods
are identified by position.
-/

namespace Lineage

/-- The overridden method in terms of the type parameters of the overriding one. -/
def Method.alignTo (mj mi : Method) : Method :=
  if mj.typeParams.isEmpty then mj
  else (Subst.positional mj.typeParams mi.typeParams).applyMethod mj

/-- The two methods have the same name, the same number of type parameters and, up to their
names, the same parameters. -/
def Method.overrideEquivalent (mi mj : Method) : Bool :=
  mi.name == mj.name && mi.typeParams.length == mj.typeParams.length &&
    mi.sameParams (mj.alignTo mi)

namespace Env

variable (env : Env)

/-- A method that returns the first type may stand in for one that returns the second. -/
def returnFits (mi mj : Ty) : Except TypeError Bool :=
  if mi.isPrimitive || mj.isPrimitive then pure (mi == mj) else env.assignable mi mj

/-- An exception is allowed by one in the list. -/
def throwAllowed (thrown : Ty) : List Ty → Except TypeError Bool
  | [] => pure false
  | allowed :: rest =>
    if thrown = allowed then pure true
    else do
      if ← env.descends thrown allowed then pure true else throwAllowed thrown rest

/-- Every checked exception in the first list is allowed by the second. -/
def throwsCovered (allowed : List Ty) : List Ty → Except TypeError Bool
  | [] => pure true
  | thrown :: rest => do
    if ← env.isUnchecked thrown then throwsCovered allowed rest
    else if ← env.throwAllowed thrown allowed then throwsCovered allowed rest
    else pure false

/-- The overriding method throws no checked exception that the overridden one does not. -/
def throwsSubset (mi mj : Method) : Except TypeError Bool := env.throwsCovered mj.throws mi.throws

/-- The first rule that `mi` breaks when it overrides `mj`, with what there is to say about it. -/
def overrideViolation? (mi mj : Method) :
    Except TypeError (Option (OverrideViolation × String)) := do
  let aligned := mj.alignTo mi
  if !mi.overrideEquivalent mj then
    pure (some (.incompatibleParameterTypes, "incompatible parameter types"))
  else if !(← env.returnFits mi.returnType aligned.returnType) then
    pure (some (.incompatibleReturnType,
      "attempting to use incompatible return type\nfound: " ++ env.renderType mi.returnType ++
        "\nrequired: " ++ env.renderType aligned.returnType))
  else if !(← env.throwsSubset mi aligned) then
    pure (some (.throwsNotSubset,
      "the throw set [" ++ env.renderTypes mi.throws ++
        "] is not a subset of the overridden method's throw set [" ++
        env.renderTypes aligned.throws ++ "]"))
  else if mi.flags.moreRestrictive mj.flags then
    pure (some (.weakerAccess, "attempting to assign weaker access privileges"))
  else if mi.isStatic != mj.isStatic then
    pure (some (.staticMismatch,
      if mj.isStatic then "overridden method is static" else "overridden method is not static"))
  else if mi.id ≠ mj.id && mj.isFinal then
    pure (some (.overridesFinal, "overridden method is final"))
  else pure none

/-- The report of a broken rule. -/
def overrideError (mi mj : Method) (reason : OverrideViolation) (detail : String) : TypeError :=
  .illegalOverride reason
    (env.renderMethod mi ++ " in " ++ env.displayName mi.container ++ " cannot override " ++
      env.renderMethod mj ++ " in " ++ env.displayName mj.container ++ "; " ++ detail)
    mi.span

/-- `mi` may override `mj`. A broken rule is an error, or just a no when asked quietly. -/
def canOverride (mi mj : Method) (quiet : Bool) : Except TypeError Bool := do
  match ← env.overrideViolation? mi mj with
  | none => pure true
  | some (reason, detail) =>
    if quiet then pure false else throw (env.overrideError mi mj reason detail)

/-- The methods in a list of classes that `mi` overrides. Listed methods that are not in the
environment are passed over. -/
def overriddenIn (mi : Method) : List ClassId → Except TypeError (List Method)
  | [] => pure []
  | id :: rest => do
    let c ← env.classDef id
    let found := (c.methods.filterMap env.method?).filter fun mj =>
      mj.id ≠ mi.id && mi.overrideEquivalent mj
    let others ← overriddenIn mi rest
    pure (found ++ others)

/-- The methods above its class that a method overrides. -/
def overriddenMethods (mi : Method) : Except TypeError (List Method) := do
  let closure ← env.supertypeClosure mi.container
  env.overriddenIn mi closure.tail

end Env

end Lineage
