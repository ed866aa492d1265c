import Lineage.Bound
import Lineage.Substitution

/-!
# Erasure

The erasure of a type has no variables: each one gives way to its bound, until none is left.
The erasures of the type parameters of a class are worth remembering, because a class never
changes once it is defined; a cache holds them by class.
-/

namespace Lineage

/-- Replaces the innermost element of a type, if it is a variable, by what `atVar` gives. -/
def Ty.bindVar (atVar : TypeVarId → Except TypeError Ty) : Ty → Except TypeError Ty
  | .var v => atVar v
  | .array element => do
    let element ← element.bindVar atVar
    pure (.array element)
  | t => pure t

namespace Env

variable (env : Env)

/-- Erases a type in at most `budget` rounds in which a variable gives way to its bound.

Where a bound leads back to its own variable through an array, the rounds have no end: each of
them adds an array and comes to the same variable. Erasure does not return then, with a type or
with an error. The failure at the end of the budget stands for that. -/
def eraseWithin : (budget : Nat) → Ty → Except TypeError Ty
  | budget, t =>
    t.bindVar fun v => do
      let bound ← env.upperBound (.var v)
      match budget with
      | 0 => throw (.cyclicInheritance (env.renderType (.var v)))
      | budget + 1 => eraseWithin budget bound

/-- The type without variables. Each round uses up a variable, so as many rounds as there are
variables suffice unless bounds lead back to themselves through an array. -/
def erase (t : Ty) : Except TypeError Ty := env.eraseWithin env.varCount t

/-- Each variable with its erasure. -/
def erasureEntries : List TypeVarId → Except TypeError (List (TypeVarId × Ty))
  | [] => pure []
  | v :: rest => do
    let erased ← env.erase (.var v)
    let others ← erasureEntries rest
    pure ((v, erased) :: others)

/-- The substitution that erases the given variables. -/
def erasureSubst (vars : List TypeVarId) : Except TypeError Subst := do
  let entries ← env.erasureEntries vars
  pure (Subst.ofList entries)

end Env

/-- The erasures of class type parameters that have been computed so far. -/
structure ErasureCache where
  entries : List (ClassId × Subst) := []
  deriving DecidableEq

namespace ErasureCache

def size (cache : ErasureCache) : Nat := cache.entries.length

def get? (cache : ErasureCache) (id : ClassId) : Option Subst := cache.entries.lookup id

/-- The erasure of a class, remembered or computed, and the cache that remembers it. A
computation that fails leaves the cache alone. -/
def classErasure (cache : ErasureCache) (env : Env) (id : ClassId) :
    Except TypeError Subst × ErasureCache :=
  match cache.get? id with
  | some subst => (.ok subst, cache)
  | none =>
    match compute with
    | .ok subst => (.ok subst, { entries := (id, subst) :: cache.entries })
    | .error e => (.error e, cache)
where
  compute : Except TypeError Subst := do
    let c ← env.classDef id
    env.erasureSubst c.typeParams

/-- The cache that has forgotten everything. -/
def clear (_ : ErasureCache) : ErasureCache := {}

end ErasureCache

end Lineage
