import Lineage.Render

/-!
# Bounds of type variables

A variable may be bounded by another variable. Following the bounds from one variable to the
next ends at a type that is no variable, or is given up after as many steps as a walk may take.
-/

namespace Lineage.Env

variable (env : Env)

/-- Follows at most `budget` bounds; `whole` is the type that is reported when more remain. -/
def boundFrom (whole : Ty) : (budget : Nat) → Ty → Except TypeError Ty
  | budget, .var v =>
    match budget with
    | 0 => throw (.cyclicInheritance (env.renderType whole))
    | budget + 1 => do
      let bound ← env.boundOf v
      boundFrom whole budget bound
  | _, t => pure t

/-- The type itself, or, for a variable, the first bound that is no variable. -/
def upperBound (t : Ty) : Except TypeError Ty := env.boundFrom t env.depthLimit t

end Lineage.Env
