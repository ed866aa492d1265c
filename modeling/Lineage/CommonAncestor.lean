import Lineage.Descent

/-!
# The least common ancestor

Of two numeric primitives it is the wider one; of arrays, the array of the elements' ancestor; of
references, the first type above the first one from which the second one descends.
-/

namespace Lineage.Env

variable (env : Env)

/-- The next type to try above a type: the superclass, the top class for interfaces and arrays,
the bound of a variable. -/
def parent? : Ty → Except TypeError (Option Ty)
  | .cls id =>
    if id = env.wellKnown.object then pure none
    else do
      let c ← env.classDef id
      if c.isInterface then pure (some env.objectType)
      else do
        let parent ← env.superclassOf id
        pure (parent.map .cls)
  | .var v => do
    let bound ← env.boundOf v
    pure (some bound)
  | .array _ => pure (some env.objectType)
  | _ => pure none

def noCommonAncestor (t₁ t₂ : Ty) : TypeError :=
  .typeMismatch ("no least common ancestor found for types \"" ++ env.renderType t₁ ++
    "\" and \"" ++ env.renderType t₂ ++ "\"")

/-- The walk up from one type came to a type it has met, or too far. -/
def lostAt (t₁ t₂ current : Ty) : TypeError :=
  match current with
  | .cls id => env.cyclic id
  | _ => env.noCommonAncestor t₁ t₂

/-- Walks up from `current`, which lies above `t₁`, to the first type above `t₂`. -/
def climb (t₁ t₂ : Ty) : (budget : Nat) → (seen : List Ty) → (current : Ty) →
    Except TypeError Ty
  | budget, seen, current => do
    let above ← if t₂ = current then pure true else env.descends t₂ current
    if above then pure current
    else
      match budget with
      | 0 => throw (env.lostAt t₁ t₂ current)
      | budget + 1 =>
        if current ∈ seen then throw (env.lostAt t₁ t₂ current)
        else do
          match ← env.parent? current with
          | some next => climb t₁ t₂ budget (current :: seen) next
          | none => throw (env.noCommonAncestor t₁ t₂)

/-- The least common ancestor of canonical types. -/
def commonAncestorCanonical : Ty → Ty → Except TypeError Ty
  | .prim a, .prim b =>
    if a = b then pure (.prim a)
    else
      match a.rank?, b.rank? with
      | some ra, some rb =>
        match Primitive.ofRank? (max ra rb) with
        | some p => pure (.prim p)
        | none => throw (env.noCommonAncestor (.prim a) (.prim b))
      | _, _ => throw (env.noCommonAncestor (.prim a) (.prim b))
  | .array a, .array b => do
    let element ← commonAncestorCanonical a b
    pure (.array element)
  | t₁, t₂ =>
    if t₂ = .null && t₁.isReference then pure t₁
    else if t₁ = .null && t₂.isReference then pure t₂
    else if t₁.isReference && t₂.isReference then env.climb t₁ t₂ env.depthLimit [] t₁
    else throw (env.noCommonAncestor t₁ t₂)

/-- The type that two branches of an expression have in common. -/
def commonAncestor (t₁ t₂ : Ty) : Except TypeError Ty := do
  t₁.ensureCanonical
  t₂.ensureCanonical
  env.commonAncestorCanonical t₁ t₂

end Lineage.Env
