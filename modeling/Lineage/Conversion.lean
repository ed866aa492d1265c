import Lineage.Bound
import Lineage.Descent

/-!
# Conversions

Which values may be used where another type is expected: without a cast (assignment and implicit
conversion), or with one. Arrays convert as their elements do, except that arrays of primitives
convert only to themselves.
-/

namespace Lineage.Env

variable (env : Env)

/-! ## Assignment -/

/-- Assignability of canonical types. -/
def assignableCanonical : Ty → Ty → Except TypeError Bool
  | child, ancestor =>
    if child = ancestor then pure true
    else
      match child, ancestor with
      | .prim c, .prim a => pure (c.widensTo a)
      | .prim _, _ => pure false
      | _, .prim _ => pure false
      | .array c, .array a =>
        if c.isPrimitive || a.isPrimitive then pure (c == a) else assignableCanonical c a
      | .null, a => pure a.isReference
      | c, a => if c.isReference && a.isReference then env.descends c a else pure false

/-- A value of type `child` may be stored where `ancestor` is declared. -/
def assignable (child ancestor : Ty) : Except TypeError Bool := do
  child.ensureCanonical
  ancestor.ensureCanonical
  env.assignableCanonical child ancestor

/-- A value converts without a cast: primitives by widening, references by assignment. -/
def converts (source target : Ty) : Except TypeError Bool := do
  source.ensureCanonical
  target.ensureCanonical
  if source = target then pure true
  else
    match source, target with
    | .prim s, .prim t => pure (s.widensTo t)
    | .prim _, _ => pure false
    | _, .prim _ => pure false
    | _, _ => env.assignable source target

/-! ## Casts -/

/-- A cast between two classes: between classes one must descend from the other; a final class
must itself have the interface; all else may succeed at run time. -/
def classCast (source target : ClassId) : Except TypeError Bool := do
  let s ← env.classDef source
  let t ← env.classDef target
  match s.isInterface, t.isInterface with
  | false, false =>
    if ← env.descends (.cls source) (.cls target) then pure true
    else env.descends (.cls target) (.cls source)
  | false, true => if s.isFinal then env.descends (.cls source) (.cls target) else pure true
  | true, false => if t.isFinal then env.descends (.cls target) (.cls source) else pure true
  | true, true => pure true

/-- Casts down to the first place where a variable stands on either side, which `atVar`
decides. -/
def castWith (atVar : Ty → Ty → Except TypeError Bool) : Ty → Ty → Except TypeError Bool
  | source, target =>
    if source = target then pure true
    else
      match source, target with
      | .prim s, .prim t => pure (s.isNumeric && t.isNumeric)
      | .prim _, _ => pure false
      | _, .prim _ => pure false
      | .null, t => pure t.isReference
      | _, .null => pure false
      | .var v, t => atVar (.var v) t
      | s, .var v => atVar s (.var v)
      | .array s, .array t =>
        if s.isPrimitive || t.isPrimitive then pure (s == t) else castWith atVar s t
      | .array s, t => env.descends (.array s) t
      | s, .array t => env.descends (.array t) s
      | .cls s, .cls t => env.classCast s t
      | _, _ => pure false

/-- Casts with at most `budget` rounds in which variables give way to their bounds.

Where a bound leads back to its own variable through an array, and the other side has arrays
enough or a bound of this kind as well, the rounds have no end and the question does not return.
The failure at the end of the budget stands for that. -/
def castWithin : (budget : Nat) → Ty → Ty → Except TypeError Bool
  | budget, source, target => do
    source.ensureCanonical
    target.ensureCanonical
    env.castWith (fun s t => do
      let s' ← env.upperBound s
      let t' ← env.upperBound t
      match budget with
      | 0 => throw (.cyclicInheritance (env.renderType s))
      | budget + 1 => castWithin budget s' t') source target

/-- A value may be cast. Each round uses up a variable on one of the sides, so twice the number
of variables suffices unless bounds lead back to themselves through an array. -/
def castable (source target : Ty) : Except TypeError Bool :=
  env.castWithin (2 * env.varCount) source target

end Lineage.Env
