import Lineage.Entity
import Lineage.Settings.Basic

/-!
# Environments

Every question about types is asked of an environment: a set of look-ups that may be backed by a
whole store, or by a part of one. An environment knows finitely many type variables, all below
`varCount`; that bound is what makes the unfolding of variable bounds end.
-/

namespace Lineage

structure Env where
  /-- The definition of a class, if it has one. -/
  classDef? : ClassId → Option ClassDef
  method? : MethodId → Option Method
  typeParam? : TypeVarId → Option TypeParam
  /-- The class that a source name denotes. -/
  lookup? : String → Option ClassId
  wellKnown : WellKnown
  /-- The name of a class, which may be known before the class is defined. -/
  className? : ClassId → Option String := fun id => (classDef? id).map (·.name)
  /-- How many links a walk may follow. -/
  depthLimit : Nat := Settings.defaultDepth
  varCount : Nat
  lt_varCount : ∀ v p, typeParam? v = some p → v.index < varCount

namespace Env

variable (env : Env)

/-- The type of the class at the top of every hierarchy. -/
def objectType : Ty := .cls env.wellKnown.object

/-- The class that a source name must denote. -/
def find (name : String) : Except TypeError ClassId :=
  match env.lookup? name with
  | some id => pure id
  | none => throw (.unresolvedClass name)

/-- The name of a class, or its position when it has no name here. -/
def displayName (id : ClassId) : String := (env.className? id).getD id.inspect

/-- The definition that a class must have. -/
def classDef (id : ClassId) : Except TypeError ClassDef :=
  match env.classDef? id with
  | some c => pure c
  | none => throw (.unresolvedClass (env.displayName id))

/-- The bound of a variable that must exist. -/
def boundOf (v : TypeVarId) : Except TypeError Ty :=
  match env.typeParam? v with
  | some p => pure p.bound
  | none => throw (.internal ("unknown type variable " ++ v.inspect))

/-- The part of an environment without the listed entries. Names are known for visible classes
only, and walks have the default depth. -/
def without (classes : List ClassId) (methods : List MethodId) (vars : List TypeVarId) : Env where
  classDef? id := if id ∈ classes then none else env.classDef? id
  method? id := if id ∈ methods then none else env.method? id
  typeParam? id := if id ∈ vars then none else env.typeParam? id
  lookup? := env.lookup?
  wellKnown := env.wellKnown
  varCount := env.varCount
  lt_varCount v p h := by
    split at h
    · cases h
    · exact env.lt_varCount v p h

end Env

end Lineage
