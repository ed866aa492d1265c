import Lineage.Hierarchy

/-!
# Descent

One type descends from another if a path of direct supertypes leads from the first to the
second: a class goes to its superclass and interfaces, an interface to its interfaces and to the
top class, a variable to its bound, an array to the three classes above all arrays, and `null`
to every reference type. No type descends from itself. The search is depth first; a type that
was met before, or that lies beyond the depth limit, is not explored.
-/

namespace Lineage.Env

variable (env : Env)

/-- The classes above every array. -/
def arraySupertypes : List Ty :=
  [env.objectType, .cls env.wellKnown.cloneable, .cls env.wellKnown.serializable]

/-- Tries types in order until one is the ancestor or leads to it. -/
def anyReaches (ancestor : Ty) (search : Ty → List Ty → Except TypeError (Bool × List Ty)) :
    List Ty → List Ty → Except TypeError (Bool × List Ty)
  | [], visited => pure (false, visited)
  | t :: rest, visited =>
    if t = ancestor then pure (true, visited)
    else do
      let (found, visited) ← search t visited
      if found then pure (true, visited) else anyReaches ancestor search rest visited

/-- Searches for `ancestor` above `child`, with `budget` levels to go. Returns whether it was
found and which types have been met. -/
def search (ancestor : Ty) : (budget : Nat) → (child : Ty) → (visited : List Ty) →
    Except TypeError (Bool × List Ty)
  | budget, child, visited =>
    if child = ancestor || !child.isReference || !ancestor.isReference then
      pure (false, visited)
    else if child ∈ visited then pure (false, visited)
    else
      match budget, child with
      | 0, _ => pure (false, child :: visited)
      | _ + 1, .null => pure (true, child :: visited)
      | _ + 1, .array _ => pure (ancestor ∈ env.arraySupertypes, child :: visited)
      | budget + 1, .var v => do
        let bound ← env.boundOf v
        anyReaches ancestor (search ancestor budget) [bound] (child :: visited)
      | budget + 1, .cls id => do
        let c ← env.classDef id
        if c.isInterface then
          if ancestor = env.objectType then pure (true, child :: visited)
          else do
            let interfaces ← env.interfacesOf id
            anyReaches ancestor (search ancestor budget) (interfaces.map .cls) (child :: visited)
        else if id = env.wellKnown.object then pure (false, child :: visited)
        else do
          let parent ← env.superclassOf id
          let (found, visited) ←
            anyReaches ancestor (search ancestor budget) (parent.toList.map .cls)
              (child :: visited)
          if found then pure (true, visited)
          else do
            let interfaces ← env.interfacesOf id
            anyReaches ancestor (search ancestor budget) (interfaces.map .cls) visited
      | _ + 1, _ => pure (false, child :: visited)

/-- No type is found above itself. -/
theorem search_self (ancestor : Ty) (budget : Nat) (visited : List Ty) :
    env.search ancestor budget ancestor visited = pure (false, visited) := by
  rw [search.eq_def]
  simp

/-- `child` is a proper subtype of `ancestor`. -/
def descends (child ancestor : Ty) : Except TypeError Bool := do
  child.ensureCanonical
  ancestor.ensureCanonical
  let (found, _) ← env.search ancestor (env.depthLimit + 1) child []
  pure found

/-- The type is the root class or descends from it. -/
def isUnder (root : ClassId) (t : Ty) : Except TypeError Bool :=
  if t = .cls root then pure true else env.descends t (.cls root)

def isThrowable (t : Ty) : Except TypeError Bool := env.isUnder env.wellKnown.throwable t

/-- The type is an exception that need not be declared. -/
def isUnchecked (t : Ty) : Except TypeError Bool := do
  if ← env.isUnder env.wellKnown.runtimeException t then pure true
  else env.isUnder env.wellKnown.error t

end Lineage.Env
