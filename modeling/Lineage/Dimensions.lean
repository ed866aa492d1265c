import Lineage.Render

/-!
# Array dimensions

Adding dimensions to a type, and taking them away.
-/

namespace Lineage

/-- The type with `n` more dimensions. -/
def Ty.wrap : Nat → Ty → Ty
  | 0, t => t
  | n + 1, t => wrap n (.array t)

/-- There are no arrays of nothing, of `null` or of packages. -/
def Ty.hasArrays : Ty → Bool
  | prim .void => false
  | null => false
  | package _ => false
  | _ => true

namespace Env

variable (env : Env)

/-- The type with `n` dimensions fewer. -/
def strip : Nat → Ty → Except TypeError Ty
  | 0, t => pure t
  | n + 1, .array element => strip n element
  | _ + 1, t =>
    throw (.internal ("cannot strip dimensions of non-array type " ++ env.renderType t))

/-- Changes the number of dimensions by `dims`. -/
def extendDims (t : Ty) (dims : Int) : Except TypeError Ty := do
  t.ensureCanonical
  if dims > 0 then
    if t.hasArrays then pure (t.wrap dims.toNat)
    else throw (.typeMismatch ("cannot create an array of \"" ++ env.renderType t ++ "\""))
  else env.strip dims.natAbs t

end Env

end Lineage
